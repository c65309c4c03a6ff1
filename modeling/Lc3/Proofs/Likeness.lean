import Lc3.Proofs.Agreement
import Lc3.Proofs.Disassembly
import Lc3.Proofs.Passes

/-!
# Lines that are read alike

What a line is read as depends on its tokens and on the texts of names, not on columns and line
numbers, nor on how a number or the name of a command is written. Main statement: lines that are
alike make programs that are assembled alike.
-/

namespace Lc3

/-! ## Likeness -/

/-- Causes are the same, if `strict` holds. -/
def Cause.Like (strict : Prop) (c c' : Cause) : Prop := strict → c' = c

/-- Errors have the same cause, if `strict` holds. -/
def AsmError.Like (strict : Prop) (e e' : AsmError) : Prop := e.cause.Like strict e'.cause

namespace Piece

/-- The same token with the same text, except that numbers may be written in another way unless
`strict` holds. -/
def Like (strict : Prop) (p q : Piece) : Prop :=
  q.value = p.value ∧ (q.text = p.text ∨ ¬ strict ∧ ∃ z, p.value = .literal z)

/-- Likeness of the words that name commands: their case does not matter unless `strict` holds. -/
inductive LikeWord (strict : Prop) (p q : Piece) : Prop
  | same (h : p.Like strict q)
  | mnemonic (hs : ¬ strict) {m : Mnemonic} (hp : p.value = .mnemonic m)
      (hq : q.value = .mnemonic m)
  | directive (hs : ¬ strict) {d d' : String} (hp : p.value = .directive d)
      (hq : q.value = .directive d') (hd : Text.upper d' = Text.upper d)

variable {strict : Prop} {p q : Piece} {ps qs : List Piece} {n : Nat}

theorem Like.text_eq (h : p.Like strict q) (hs : strict) : q.text = p.text :=
  h.2.resolve_right fun hn => hn.1 hs

theorem Like.text_of_ne (h : p.Like strict q) (hv : ∀ z, p.value ≠ .literal z) :
    q.text = p.text :=
  h.2.resolve_right fun ⟨_, z, hz⟩ => hv z hz

/-! ## Operands -/

theorem Like.reg (h : p.Like strict q) : Agree (Cause.Like strict) (· = ·) p.reg q.reg := by
  unfold Piece.reg
  rw [h.1]
  split
  · exact .ok rfl
  · exact .error fun hs => by rw [h.text_eq hs]

theorem Like.literal (h : p.Like strict q) :
    Agree (Cause.Like strict) (· = ·) p.literal q.literal := by
  unfold Piece.literal
  rw [h.1]
  split
  · exact .ok rfl
  · exact .error fun hs => by rw [h.text_eq hs]

theorem Like.operand (h : p.Like strict q) :
    Agree (Cause.Like strict) (· = ·) (p.operand n) (q.operand n) := by
  unfold Piece.operand
  rw [h.1]
  split
  · exact .ok rfl
  · split
    · exact .ok rfl
    · exact .error fun _ => rfl
  · exact .error fun hs => by rw [h.text_eq hs]

theorem Like.offset (h : p.Like strict q) :
    Agree (Cause.Like strict) (· = ·) (p.offset n) (q.offset n) := by
  refine h.literal.bind ?_
  rintro z _ rfl
  exact .refl (fun _ _ => rfl) (fun _ => rfl) _

theorem Like.vector (h : p.Like strict q) :
    Agree (Cause.Like strict) (· = ·) p.vector q.vector := by
  refine h.literal.bind ?_
  rintro z _ rfl
  exact .refl (fun _ _ => rfl) (fun _ => rfl) _

theorem Like.target (h : p.Like strict q) :
    Agree (Cause.Like strict) (fun t t' => t'.bare = t.bare) (p.target n) (q.target n) := by
  unfold Piece.target
  rw [h.1]
  split
  · split
    · exact .ok rfl
    · exact .error fun _ => rfl
  · rename_i hv
    have htext := h.text_of_ne hv
    exact .ok (by simp only [Target.bare, Label.bare, htext])

theorem only_like {name : String} (h : List.Forall₂ (Like strict) ps qs) :
    Agree (Cause.Like strict) (Like strict) (only name ps) (only name qs) := by
  have hlength := h.length_eq
  cases h with
  | nil => exact .error fun _ => rfl
  | cons hp hrest =>
      cases hrest with
      | nil => exact .ok hp
      | cons =>
          refine .error fun _ => ?_
          rw [hlength]

end Piece

/-! ## Commands -/

variable {strict : Prop} {p q : Piece} {ps qs : List Piece}

theorem SourceInstr.read_of_length_ne {m : Mnemonic} (h : ps.length ≠ m.arity) :
    read m ps = .error (.instrOperandCount m.name m.arity ps.length) := by
  unfold read
  split <;> first | rfl | exact absurd rfl h

theorem SourceInstr.read_like {m : Mnemonic} (h : List.Forall₂ (Piece.Like strict) ps qs) :
    Agree (Cause.Like strict) (fun i i' => i'.bare = i.bare) (read m ps) (read m qs) := by
  -- With another number of operands none of them is looked at.
  by_cases hlen : ps.length = m.arity
  · cases m with
    | add | and =>
        obtain ⟨dr, sr, src, rfl⟩ := List.length_eq_three.1 hlen
        obtain _ | ⟨hd, _ | ⟨hs, _ | ⟨ho, ⟨⟩⟩⟩⟩ := h
        refine hd.reg.bind fun _ _ ed => hs.reg.bind fun _ _ es => ho.operand.bind fun _ _ eo => ?_
        subst ed es eo
        exact .ok rfl
    | ldr | str =>
        obtain ⟨dr, base, off, rfl⟩ := List.length_eq_three.1 hlen
        obtain _ | ⟨hd, _ | ⟨hb, _ | ⟨ho, ⟨⟩⟩⟩⟩ := h
        refine hd.reg.bind fun _ _ ed => hb.reg.bind fun _ _ eb => ho.offset.bind fun _ _ eo => ?_
        subst ed eb eo
        exact .ok rfl
    | not =>
        obtain ⟨dr, sr, rfl⟩ := List.length_eq_two.1 hlen
        obtain _ | ⟨hd, _ | ⟨hs, ⟨⟩⟩⟩ := h
        refine hd.reg.bind fun _ _ ed => hs.reg.bind fun _ _ es => ?_
        subst ed es
        exact .ok rfl
    | ld | ldi | lea | st | sti =>
        obtain ⟨r, t, rfl⟩ := List.length_eq_two.1 hlen
        obtain _ | ⟨hr, _ | ⟨ht, ⟨⟩⟩⟩ := h
        refine hr.reg.bind fun _ _ er => ht.target.bind fun _ _ et => .ok ?_
        subst er
        simp only [bare, et]
    | branch | jsr =>
        obtain ⟨t, rfl⟩ := List.length_eq_one_iff.1 hlen
        obtain _ | ⟨ht, ⟨⟩⟩ := h
        refine ht.target.bind fun _ _ et => .ok ?_
        simp only [bare, et]
    | jmp | jsrr =>
        obtain ⟨base, rfl⟩ := List.length_eq_one_iff.1 hlen
        obtain _ | ⟨hb, ⟨⟩⟩ := h
        refine hb.reg.bind fun _ _ eb => ?_
        subst eb
        exact .ok rfl
    | trap =>
        obtain ⟨v, rfl⟩ := List.length_eq_one_iff.1 hlen
        obtain _ | ⟨hv, ⟨⟩⟩ := h
        refine hv.vector.bind fun _ _ ev => ?_
        subst ev
        exact .ok rfl
    | nop | ret | rti | service =>
        obtain rfl := List.length_eq_zero_iff.1 hlen
        cases h
        exact .ok rfl
  · rw [read_of_length_ne hlen, read_of_length_ne (h.length_eq ▸ hlen), h.length_eq]
    exact .error fun _ => rfl

theorem Directive.read_like {name name' : String} (hkey : Text.upper name' = Text.upper name)
    (hname : strict → name' = name) (h : List.Forall₂ (Piece.Like strict) ps qs) :
    Agree (Cause.Like strict) (fun d d' => d'.bare = d.bare)
      (read name ps) (read name' qs) := by
  simp only [read, hkey]
  split
  · refine (Piece.only_like h).bind fun _ _ hp => hp.target.bind fun _ _ ht => .ok ?_
    simp only [bare, ht]
  split
  · refine (Piece.only_like h).bind fun _ _ hp => hp.literal.bind ?_
    rintro n _ rfl
    split
    · exact .error fun _ => rfl
    · exact .ok rfl
  split
  · refine (Piece.only_like h).bind fun p q hp => ?_
    rw [hp.1]
    split
    · exact .ok rfl
    · exact .error fun hs => by rw [hp.text_eq hs]
  split
  · exact .ok rfl
  · exact .error fun hs => by rw [hname hs]

theorem Command.read_like (hw : p.LikeWord strict q) (h : List.Forall₂ (Piece.Like strict) ps qs) :
    Agree (Cause.Like strict) (fun c c' => c'.bare = c.bare) (read p ps) (read q qs) := by
  unfold read
  cases hw with
  | same hp =>
      rw [hp.1]
      split
      · exact (SourceInstr.read_like h).map fun _ _ hi => by simp only [bare, hi]
      · exact (Directive.read_like rfl (fun _ => rfl) h).map fun _ _ hd => by simp only [bare, hd]
      · exact .error fun hs => by rw [hp.text_eq hs]
  | mnemonic hs hp hq =>
      simp only [hp, hq]
      exact (SourceInstr.read_like h).map fun _ _ hi => by simp only [bare, hi]
  | directive hs hp hq hd =>
      simp only [hp, hq]
      exact (Directive.read_like hd (fun h => absurd h hs) h).map fun _ _ hd => by
        simp only [bare, hd]

theorem Token.isCommand_like (h : p.LikeWord strict q) :
    q.value.isCommand = p.value.isCommand := by
  cases h with
  | same hp => rw [hp.1]
  | mnemonic hs hp hq => rw [hp, hq]
  | directive hs hp hq hd => simp only [hp, hq, isCommand, hd]

/-! ## Statements -/

/-- Commands and their operands are alike: the first pieces as words, the others as operands. -/
inductive LikeCommand (strict : Prop) : List Piece → List Piece → Prop
  | nil : LikeCommand strict [] []
  | cons {p q : Piece} {ps qs : List Piece} (hw : p.LikeWord strict q)
      (h : List.Forall₂ (Piece.Like strict) ps qs) : LikeCommand strict (p :: ps) (q :: qs)

/-- The pieces of two lines are alike. A command stands at the start or behind a label. -/
inductive LikePieces (strict : Prop) : List Piece → List Piece → Prop
  | command {ps qs : List Piece} (h : LikeCommand strict ps qs) : LikePieces strict ps qs
  | label {p q : Piece} {ps qs : List Piece} (hp : p.Like strict q)
      (hc : p.value.isCommand = false) (h : LikeCommand strict ps qs) :
      LikePieces strict (p :: ps) (q :: qs)

theorem LikeCommand.of_forall₂ (h : List.Forall₂ (Piece.Like strict) ps qs) :
    LikeCommand strict ps qs := by
  cases h with
  | nil => exact .nil
  | cons hp h => exact .cons (.same hp) h

namespace Stmt

/-- The statements are the same but for columns and line numbers. -/
def Like (s s' : Stmt) : Prop := s'.bare = s.bare

variable {s s' : Stmt} {l l' : Line} {n n' : Nat}

theorem Like.isEnd_eq (h : s.Like s') : s'.isEnd = s.isEnd := by
  rw [← isEnd_bare, h, isEnd_bare]

theorem readCommand_like (h : LikeCommand strict ps qs) :
    Agree (AsmError.Like strict) (fun c c' => c'.map Command.bare = c.map Command.bare)
      (readCommand n ps) (readCommand n' qs) := by
  cases h with
  | nil => exact .ok rfl
  | @cons p q ps qs hw h =>
      have hread := Command.read_like hw h
      simp only [readCommand]
      generalize Command.read p ps = c at hread
      generalize Command.read q qs = c' at hread
      cases hread with
      | ok hc => exact .ok (by simp only [Option.map_some, hc])
      | error hc => exact .error hc

theorem readLabel_like (hw : p.LikeWord strict q) :
    Agree (AsmError.Like strict) (fun l l' => l'.bare = l.bare) (readLabel n p)
      (readLabel n' q) := by
  unfold readLabel
  cases hw with
  | same hp =>
      rw [hp.1]
      split
      · rename_i hv
        exact .ok (by simp only [Label.bare, hp.text_of_ne (by simp [hv])])
      · rename_i hv
        exact .ok (by simp only [Label.bare, hp.text_of_ne (by simp [hv])])
      · exact .error fun hs => by simp only [hp.text_eq hs]
  | mnemonic hs hp hq =>
      simp only [hp, hq]
      exact .error fun h => absurd h hs
  | directive hs hp hq hd =>
      simp only [hp, hq]
      exact .error fun h => absurd h hs

theorem read_like (h : LikePieces strict l.tokens l'.tokens) :
    Agree (AsmError.Like strict) (Option.Rel Like) (read l) (read l') := by
  have hlabeled {p q : Piece} {ps qs : List Piece} (hp : p.LikeWord strict q)
      (hrest : LikeCommand strict ps qs) :
      Agree (AsmError.Like strict) (Option.Rel Like)
        (do
          let label ← readLabel l.number p
          let command ← readCommand l.number ps
          return some ⟨some label, command, l.number⟩)
        (do
          let label ← readLabel l'.number q
          let command ← readCommand l'.number qs
          return some ⟨some label, command, l'.number⟩) := by
    refine (readLabel_like hp).bind fun _ _ hl => (readCommand_like hrest).bind fun _ _ hc => ?_
    exact .ok (.some (by simp only [Like, bare, Option.map_some, hl, hc]))
  unfold read
  generalize l.tokens = ps at h
  generalize l'.tokens = qs at h
  cases h with
  | command h =>
      cases h with
      | nil => exact .ok .none
      | cons hw h =>
          simp only [Token.isCommand_like hw]
          split
          · refine (readCommand_like (.cons hw h)).bind fun _ _ hc => .ok (.some ?_)
            simp only [Like, bare, hc]
          · exact hlabeled hw (.of_forall₂ h)
  | label hp hc h =>
      simp only [hp.1, hc]
      exact hlabeled (.same hp) h

end Stmt

/-! ## Lines -/

/-- A line of `.END`, with a label or without. -/
inductive EndLine : List Piece → Prop
  | command {p : Piece} {ps : List Piece} {d : String} (hp : p.value = .directive d)
      (hd : Text.upper d = "END") : EndLine (p :: ps)
  | label {l p : Piece} {ps : List Piece} {d : String} (hl : l.value.isCommand = false)
      (hp : p.value = .directive d) (hd : Text.upper d = "END") : EndLine (l :: p :: ps)

/-- Lines are alike one by one, up to the first line of `.END`. Lines without tokens do not
count. -/
inductive LikeLines (strict : Prop) : List Line → List Line → Prop
  | nil : LikeLines strict [] []
  | blank {l : Line} {ls ls' : List Line} (hl : l.tokens = []) (h : LikeLines strict ls ls') :
      LikeLines strict (l :: ls) ls'
  | blank' {l' : Line} {ls ls' : List Line} (hl : l'.tokens = []) (h : LikeLines strict ls ls') :
      LikeLines strict ls (l' :: ls')
  | cons {l l' : Line} {ls ls' : List Line} (hl : LikePieces strict l.tokens l'.tokens)
      (h : LikeLines strict ls ls') : LikeLines strict (l :: ls) (l' :: ls')
  | last {l l' : Line} {ls ls' : List Line} (hl : LikePieces strict l.tokens l'.tokens)
      (hend : EndLine l.tokens) : LikeLines strict (l :: ls) (l' :: ls')

variable {l l' : Line} {ls ls' : List Line}

theorem Directive.read_end {d : String} (hd : Text.upper d = "END") : read d ps = .ok .finish := by
  simp [read, hd]

theorem Stmt.isEnd_of_endLine {s? : Option Stmt} (h : EndLine l.tokens) (hr : read l = .ok s?) :
    ∃ s, s? = some s ∧ s.isEnd = true := by
  have hcommand {n : Nat} {p : Piece} {ps : List Piece} {d : String} (hp : p.value = .directive d)
      (hd : Text.upper d = "END") :
      readCommand n (p :: ps) = .ok (some (.directive .finish)) := by
    simp [readCommand, Command.read, hp, Directive.read_end hd, Except.map]
  unfold read at hr
  generalize l.tokens = ps at h hr
  cases h with
  | @command p ps d hp hd =>
      have hc : Token.isCommand (.directive d) = true := by
        simp [Token.isCommand, hd, Directive.names]
      simp only [hp, hc, ↓reduceIte, hcommand hp hd, bind_eq_ok, pure_eq_ok] at hr
      obtain ⟨_, ⟨⟩, rfl⟩ := hr
      exact ⟨_, rfl, rfl⟩
  | label hl hp hd =>
      simp only [hl, Bool.false_eq_true, ↓reduceIte, hcommand hp hd, bind_eq_ok, pure_eq_ok] at hr
      obtain ⟨_, -, _, ⟨⟩, rfl⟩ := hr
      exact ⟨_, rfl, rfl⟩

theorem Stmt.readAll_blank (h : l.tokens = []) : readAll (l :: ls) = readAll ls := by
  simp only [readAll, read, h]
  rfl

theorem Stmt.readAll_like (h : LikeLines strict ls ls') :
    Agree (AsmError.Like strict) (List.Forall₂ Like) (readAll ls) (readAll ls') := by
  induction h with
  | nil => exact .ok .nil
  | blank hl _ ih => rwa [readAll_blank hl]
  | blank' hl _ ih => rwa [readAll_blank hl]
  | cons hl _ ih =>
      simp only [readAll]
      refine (read_like hl).bind fun s s' hs => ?_
      cases hs with
      | none => exact ih
      | some hs =>
          simp only [hs.isEnd_eq]
          split
          · exact .ok (.cons hs .nil)
          · exact ih.bind fun _ _ hrest => .ok (.cons hs hrest)
  | @last l l' ls ls' hl hend =>
      simp only [readAll]
      have hread := (read_like hl).with_left fun _ => isEnd_of_endLine hend
      refine hread.bind ?_
      rintro s s' ⟨⟨_, hsome, he⟩, hs⟩
      subst hsome
      cases hs with
      | some hs =>
          simp only [hs.isEnd_eq, he, ↓reduceIte]
          exact .ok (.cons hs .nil)

namespace Origin

theorem isOrigin_like (h : p.LikeWord strict q) : isOrigin q = isOrigin p := by
  cases h with
  | same hp => simp only [isOrigin, hp.1]
  | mnemonic hs hp hq => simp only [isOrigin, hp, hq]
  | directive hs hp hq hd => simp only [isOrigin, hp, hq, hd]

theorem address_like (h : LikeCommand strict ps qs) :
    Agree (Cause.Like strict) (· = ·) (address ps) (address qs) := by
  cases h with
  | nil => exact .error fun _ => rfl
  | @cons p q ps qs hw h =>
      cases h with
      | nil =>
          cases hw with
          | same hp =>
              refine hp.literal.bind ?_
              rintro n _ rfl
              split
              · exact .ok rfl
              · exact .error fun hs => by rw [hp.text_eq hs]
          | mnemonic hs hp hq =>
              simp only [address, Piece.literal, hp, hq]
              exact .error fun h => absurd h hs
          | directive hs hp hq hd =>
              simp only [address, Piece.literal, hp, hq]
              exact .error fun h => absurd h hs
      | cons _ hrest =>
          refine .error fun _ => ?_
          simp only [List.length_cons, hrest.length_eq]

theorem operands_like (hw : p.LikeWord strict q) (h : LikeCommand strict ps qs) :
    Agree (Cause.Like strict) (· = ·) (operands (p :: ps) >>= address)
      (operands (q :: qs) >>= address) := by
  simp only [operands, isOrigin_like hw]
  split
  · exact address_like h
  · cases h with
    | nil => exact .error fun _ => rfl
    | cons hw' h =>
        simp only [isOrigin_like hw']
        split <;> exact .error fun _ => rfl

theorem line_like (h : LikePieces strict ps qs) :
    Agree (Cause.Like strict) (· = ·) (operands ps >>= address) (operands qs >>= address) := by
  cases h with
  | command h =>
      cases h with
      | nil => exact .error fun _ => rfl
      | cons hw h => exact operands_like hw (.of_forall₂ h)
  | label hp hc h => exact operands_like (.same hp) h

theorem not_endLine {orig : Word} (h : EndLine ps) : (operands ps >>= address) ≠ .ok orig := by
  cases h with
  | @command p ps d hp hd =>
      have ho : isOrigin p = false := by simp [isOrigin, hp, hd]
      cases ps with
      | nil => simp [operands, ho, Bind.bind, Except.bind]
      | cons q ps =>
          simp only [operands, ho, Bool.false_eq_true, ↓reduceIte]
          split <;> rintro ⟨⟩
  | @label l p ps d hl hp hd =>
      have ho : isOrigin p = false := by simp [isOrigin, hp, hd]
      simp only [operands, ho, Bool.false_eq_true, ↓reduceIte]
      split
      · cases ps with
        | nil => simp [address, Piece.literal, hp, Bind.bind, Except.bind]
        | cons => rintro ⟨⟩
      · rintro ⟨⟩

theorem isEmpty_like (h : LikePieces strict l.tokens l'.tokens) : l'.isEmpty = l.isEmpty := by
  unfold Line.isEmpty
  generalize l.tokens = ps at h
  generalize l'.tokens = qs at h
  cases h with
  | command h => cases h <;> rfl
  | label => rfl

theorem findFrom_blank {n : Nat} (h : l.tokens = []) :
    findFrom n (l :: ls) = findFrom (n + 1) ls := by
  simp [findFrom, Line.isEmpty, h]

/-- Origins that are found in lines that are alike: the same, with lines behind them that are alike,
too. -/
def Like (strict : Prop) (n n' : Nat) (ls ls' : List Line) (o o' : Origin) : Prop :=
  o'.orig = o.orig ∧ ∃ k k', o.begin = n + k ∧ o'.begin = n' + k' ∧
    LikeLines strict (ls.drop k) (ls'.drop k')

theorem findFrom_like {n n' : Nat} (h : LikeLines strict ls ls') :
    Agree (AsmError.Like strict) (Like strict n n' ls ls') (findFrom n ls) (findFrom n' ls') := by
  induction h generalizing n n' with
  | nil => exact .error fun _ => rfl
  | blank hl _ ih =>
      rw [findFrom_blank hl]
      refine ih.mono (fun _ _ => id) ?_
      rintro o o' ⟨ho, k, k', hk, hk', h⟩
      exact ⟨ho, k + 1, k', by omega, hk', h⟩
  | blank' hl _ ih =>
      rw [findFrom_blank hl]
      refine ih.mono (fun _ _ => id) ?_
      rintro o o' ⟨ho, k, k', hk, hk', h⟩
      exact ⟨ho, k, k' + 1, hk, by omega, h⟩
  | cons hl h ih =>
      simp only [findFrom, isEmpty_like hl]
      split
      · refine ih.mono (fun _ _ => id) ?_
        rintro o o' ⟨ho, k, k', hk, hk', h⟩
        exact ⟨ho, k + 1, k' + 1, by omega, by omega, h⟩
      · rename_i l l' ls ls' _
        have hline := line_like hl
        generalize (operands l.tokens >>= address) = r at hline
        generalize (operands l'.tokens >>= address) = r' at hline
        cases hline with
        | ok ho => exact .ok ⟨ho.symm, 1, 1, rfl, rfl, h⟩
        | error hc => exact .error hc
  | @last l l' ls ls' hl hend =>
      have hempty : l.isEmpty = false := by
        unfold Line.isEmpty
        generalize l.tokens = ps at hend
        cases hend <;> rfl
      -- A line of `.END` holds no origin, so both searches end here.
      have hline := line_like hl
      have hno : ∀ orig, (operands l.tokens >>= address) ≠ .ok orig := fun _ => not_endLine hend
      simp only [findFrom, isEmpty_like hl, hempty, Bool.false_eq_true, ↓reduceIte]
      generalize (operands l.tokens >>= address) = r at hline hno
      generalize (operands l'.tokens >>= address) = r' at hline
      cases hline with
      | ok => exact absurd rfl (hno _)
      | error hc => exact .error hc

end Origin

/-! ## Programs -/

variable {stmts stmts' : List Stmt} {labels : LabelTable} {addr : Nat} {s s' : Stmt}

theorem Stmt.Like.name_eq (h : s.Like s') : s'.label.map Label.name = s.label.map Label.name := by
  have hlabel := congrArg (fun t => t.label.map Label.name) h
  simpa [Stmt.bare, Function.comp_def, Label.bare] using hlabel

theorem Stmt.Like.command_eq (h : s.Like s') :
    s'.command.map Command.bare = s.command.map Command.bare :=
  congrArg Stmt.command h

theorem Stmt.Like.size_eq (h : s.Like s') : s'.size = s.size := by
  have hc := h.command_eq
  unfold size
  cases hs : s.command <;> cases hs' : s'.command <;> simp only [hs, hs', Option.map_some,
    Option.map_none, Option.some.injEq, reduceCtorEq] at hc ⊢
  rw [← Command.size_bare, hc, Command.size_bare]

namespace Layout

theorem bind_like (h : s.Like s') :
    Agree (AsmError.Like strict) (· = ·) (bind labels addr s) (bind labels addr s') := by
  have hn := h.name_eq
  unfold bind
  cases hs : s.label <;> cases hs' : s'.label <;> simp only [hs, hs', Option.map_some,
    Option.map_none, Option.some.injEq, reduceCtorEq] at hn ⊢
  · exact .ok rfl
  · rw [hn]
    split
    · exact .error fun _ => rfl
    · split
      · exact .error fun _ => rfl
      · split
        · exact .error fun _ => rfl
        · exact .ok rfl

theorem walk_like (h : List.Forall₂ Stmt.Like stmts stmts') :
    Agree (AsmError.Like strict) (· = ·) (walk labels addr stmts) (walk labels addr stmts') := by
  induction h generalizing labels addr with
  | nil => exact .ok rfl
  | cons hs _ ih =>
      simp only [walk, hs.isEnd_eq, hs.size_eq]
      refine (bind_like hs).bind ?_
      rintro bound _ rfl
      split
      · exact .ok rfl
      · split
        · exact .error fun _ => rfl
        · exact ih

theorem ofStmts_like {orig : Word} (h : List.Forall₂ Stmt.Like stmts stmts') :
    Agree (AsmError.Like strict) (· = ·) (ofStmts orig stmts) (ofStmts orig stmts') := by
  refine (walk_like h).bind ?_
  rintro r _ rfl
  split
  · exact .ok rfl
  · exact .error fun _ => rfl

end Layout

namespace Stmt

theorem words_like (h : s.Like s') :
    Agree (AsmError.Like strict) (· = ·) (s.words labels addr) (s'.words labels addr) := by
  have hc := h.command_eq
  unfold words
  cases hs : s.command <;> cases hs' : s'.command <;> simp only [hs, hs', Option.map_some,
    Option.map_none, Option.some.injEq, reduceCtorEq] at hc ⊢
  · exact .ok rfl
  · rw [← Command.words_bare, ← hc, Command.words_bare]
    refine (Agree.refl (fun _ => rfl) (fun _ => rfl) _).mapError ?_
    rintro c _ rfl _
    rfl

theorem allWords_like (h : List.Forall₂ Like stmts stmts') :
    Agree (AsmError.Like strict) (· = ·) (allWords labels addr stmts)
      (allWords labels addr stmts') := by
  induction h generalizing addr with
  | nil => exact .ok rfl
  | cons hs _ ih =>
      simp only [allWords, hs.isEnd_eq]
      split
      · exact .ok rfl
      · refine (words_like hs).bind ?_
        rintro ws _ rfl
        refine ih.bind ?_
        rintro more _ rfl
        exact .ok rfl

end Stmt

namespace ObjectFile

variable {source source' : String}

theorem ofProgram_like {p p' : Program} (ho : p'.orig = p.orig)
    (h : List.Forall₂ Stmt.Like p.stmts p'.stmts) :
    Agree (AsmError.Like strict) (· = ·) (ofProgram p) (ofProgram p') := by
  unfold ofProgram
  rw [ho]
  refine (Layout.ofStmts_like h).bind ?_
  rintro layout _ rfl
  refine (Stmt.allWords_like h).bind ?_
  rintro ws _ rfl
  exact .ok rfl

/-- Sources with lines that are alike are assembled to the same object file, or to none. -/
theorem assemble_like (h : Line.readAll source = .ok ls) (h' : Line.readAll source' = .ok ls')
    (hl : LikeLines strict ls ls') :
    Agree (AsmError.Like strict) (· = ·) (assemble source) (assemble source') := by
  have hread : Agree (AsmError.Like strict)
      (fun p p' => p'.orig = p.orig ∧ List.Forall₂ Stmt.Like p.stmts p'.stmts)
      (Program.read source) (Program.read source') := by
    unfold Program.read
    rw [h, h']
    refine (Origin.findFrom_like hl).bind ?_
    rintro o o' ⟨ho, k, k', hk, hk', hrest⟩
    rw [Nat.zero_add] at hk hk'
    subst hk hk'
    exact (Stmt.readAll_like hrest).bind fun _ _ hs => .ok ⟨ho, hs⟩
  exact hread.bind fun _ _ ⟨ho, hs⟩ => ofProgram_like ho hs

end ObjectFile

end Lc3
