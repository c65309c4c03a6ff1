import Lc3.Proofs.Agreement
import Lc3.Proofs.Passes
import Lc3.Proofs.WellPlaced

/-!
# A program at another origin

Instructions hold distances, so they do not change if a whole program moves; a `.FILL` with a label
holds an address, so it moves along. Main statement: a program that has a layout at two origins is
assembled at both of them or at none, to the same words but for the addresses.
-/

namespace Lc3

/-- The second word is greater by `d` than the first, as a number. -/
def Word.Apart (d : Int) (w w' : Word) : Prop := (w'.toNat : Int) - w.toNat = d

/-- The second table has the same names as the first, each with an address greater by `d`. -/
def LabelTable.Shifted (d : Int) (labels labels' : LabelTable) : Prop :=
  ∀ name, Option.Rel (Word.Apart d) (labels.addrOf? name) (labels'.addrOf? name)

/-- The statement writes an address: `.FILL` with a label. -/
def Stmt.FillsAddress (s : Stmt) : Prop := ∃ l, s.command = some (.directive (.fill (.label l)))

/-- The `k`-th word of a program is the address of a label. -/
def Stmt.IsAddress (stmts : List Stmt) (k : Nat) : Prop :=
  ∃ i s, (body stmts)[i]? = some s ∧ s.FillsAddress ∧ offset stmts i = k

/-- The second list of words is as long as the first. It has words greater by `d` at the positions
of addresses, and equal ones elsewhere. -/
structure Word.Moved (d : Int) (address : Nat → Prop) (ws ws' : List Word) : Prop where
  length_eq : ws'.length = ws.length
  apart : ∀ (k : Nat) (w w' : Word), address k → ws[k]? = some w → ws'[k]? = some w' → Apart d w w'
  same : ∀ k : Nat, ¬ address k → ws'[k]? = ws[k]?

variable {d : Int} {labels labels' : LabelTable} {addr addr' pc pc' k : Nat}
  {ws ws' us us' vs vs' : List Word} {p q r : Nat → Prop} {s : Stmt} {rest stmts : List Stmt}

namespace Word

theorem Moved.refl : Moved d (fun _ => False) ws ws := ⟨rfl, nofun, fun _ _ => rfl⟩

theorem Moved.congr (h : Moved d p ws ws') (hpq : ∀ k < ws.length, q k ↔ p k) :
    Moved d q ws ws' where
  length_eq := h.length_eq
  apart k w w' hq hw := by
    obtain ⟨hk, -⟩ := List.getElem?_eq_some_iff.1 hw
    exact h.apart k w w' ((hpq k hk).1 hq) hw
  same k hq := by
    by_cases hk : k < ws.length
    · exact h.same k fun hp => hq ((hpq k hk).2 hp)
    · have hlen := h.length_eq
      rw [List.getElem?_eq_none (by omega), List.getElem?_eq_none (by omega)]

theorem Moved.append (hu : Moved d p us us') (hv : Moved d q vs vs')
    (hp : ∀ k < us.length, r k ↔ p k) (hq : ∀ k, r (us.length + k) ↔ q k) :
    Moved d r (us ++ vs) (us' ++ vs') where
  length_eq := by rw [List.length_append, List.length_append, hu.length_eq, hv.length_eq]
  apart k w w' hr hw hw' := by
    by_cases hk : k < us.length
    · rw [List.getElem?_append_left hk] at hw
      rw [List.getElem?_append_left (by rwa [hu.length_eq])] at hw'
      exact hu.apart k w w' ((hp k hk).1 hr) hw hw'
    · obtain ⟨j, rfl⟩ := Nat.exists_eq_add_of_le (Nat.not_lt.1 hk)
      rw [List.getElem?_append_right (by omega), Nat.add_sub_cancel_left] at hw
      rw [List.getElem?_append_right (by rw [hu.length_eq]; omega), hu.length_eq,
        Nat.add_sub_cancel_left] at hw'
      exact hv.apart j w w' ((hq j).1 hr) hw hw'
  same k hr := by
    by_cases hk : k < us.length
    · rw [List.getElem?_append_left hk, List.getElem?_append_left (by rwa [hu.length_eq])]
      exact hu.same k fun h => hr ((hp k hk).2 h)
    · obtain ⟨j, rfl⟩ := Nat.exists_eq_add_of_le (Nat.not_lt.1 hk)
      rw [List.getElem?_append_right (by rw [hu.length_eq]; omega), hu.length_eq,
        List.getElem?_append_right (by omega), Nat.add_sub_cancel_left]
      exact hv.same j fun h => hr ((hq j).2 h)

end Word

/-! ## One statement -/

/-- A field depends on a distance only. -/
theorem Target.resolve_shifted {n : Nat} {t : Target n} (hl : labels.Shifted d labels')
    (hpc : (pc' : Int) - pc = d) : t.resolve labels' pc' = t.resolve labels pc := by
  cases t with
  | offset v => rfl
  | label l =>
      simp only [resolve]
      have hrel := hl l.name
      generalize labels.addrOf? l.name = found at hrel
      generalize labels'.addrOf? l.name = found' at hrel
      cases hrel with
      | none => rfl
      | some hd =>
          rename_i w w'
          have hdist : (w'.toNat : Int) - pc' = (w.toNat : Int) - pc := by
            unfold Word.Apart at hd
            omega
          simp only [hdist]

theorem SourceInstr.resolve_shifted {i : SourceInstr} (hl : labels.Shifted d labels')
    (hpc : (pc' : Int) - pc = d) : i.resolve labels' pc' = i.resolve labels pc := by
  cases i <;> simp only [resolve, Target.resolve_shifted hl hpc]

theorem Directive.words_shifted {dir : Directive} (hl : labels.Shifted d labels') :
    Agree (· = ·) (Word.Moved d fun _ => ∃ l, dir = .fill (.label l))
      (dir.words labels) (dir.words labels') := by
  cases dir with
  | fill t =>
      cases t with
      | offset v => exact .ok (Word.Moved.refl.congr (by simp))
      | label l =>
          simp only [words]
          have hrel := hl l.name
          generalize labels.addrOf? l.name = found at hrel
          generalize labels'.addrOf? l.name = found' at hrel
          cases hrel with
          | none => exact .error rfl
          | some hd =>
              refine .ok ⟨rfl, ?_, by simp⟩
              rintro (_ | k) w w' - hw hw'
              · cases hw
                cases hw'
                exact hd
              · simp at hw
  | block n => exact .ok (Word.Moved.refl.congr (by simp))
  | string s => exact .ok (Word.Moved.refl.congr (by simp))
  | finish => exact .ok (Word.Moved.refl.congr (by simp))

theorem Stmt.words_shifted (hl : labels.Shifted d labels') (ha : (addr' : Int) - addr = d) :
    Agree (· = ·) (Word.Moved d fun _ => s.FillsAddress)
      (s.words labels addr) (s.words labels' addr') := by
  unfold words FillsAddress
  cases s.command with
  | none => exact .ok (Word.Moved.refl.congr (by simp))
  | some c =>
      cases c with
      | instr i =>
          have hi : i.resolve labels' (addr' + 1) = i.resolve labels (addr + 1) :=
            SourceInstr.resolve_shifted hl (by omega)
          simp only [Command.words, hi]
          refine .refl (fun _ => rfl) (fun ws => Word.Moved.refl.congr (by simp)) _
      | directive dir =>
          simp only [Command.words, Option.some.injEq, Command.directive.injEq]
          exact (Directive.words_shifted hl).mapError fun _ _ => congrArg _

/-! ## All statements -/

namespace Stmt

theorem size_of_fillsAddress (h : s.FillsAddress) : s.size = 1 := by
  obtain ⟨l, hc⟩ := h
  rw [size, hc]
  rfl

theorem isAddress_cons_left (he : s.isEnd = false) (hk : k < s.size) :
    IsAddress (s :: rest) k ↔ s.FillsAddress := by
  constructor
  · rintro ⟨_ | i, t, ht, hf, rfl⟩
    · rw [body_cons he] at ht
      cases ht
      exact hf
    · rw [offset_succ] at hk
      exact absurd hk (by omega)
  · intro hf
    have := size_of_fillsAddress hf
    exact ⟨0, s, by simp [body_cons he], hf, by simp; omega⟩

theorem isAddress_cons_right (he : s.isEnd = false) :
    IsAddress (s :: rest) (s.size + k) ↔ IsAddress rest k := by
  constructor
  · rintro ⟨_ | i, t, ht, hf, hk⟩
    · rw [body_cons he] at ht
      cases ht
      rw [offset_zero, size_of_fillsAddress hf] at hk
      exact absurd hk (by omega)
    · exact ⟨i, t, by simpa [body_cons he] using ht, hf, by simpa using hk⟩
  · rintro ⟨i, t, ht, hf, rfl⟩
    exact ⟨i + 1, t, by simpa [body_cons he] using ht, hf, offset_succ⟩

theorem allWords_shifted (hl : labels.Shifted d labels') (ha : (addr' : Int) - addr = d) :
    Agree (· = ·) (Word.Moved d (IsAddress stmts))
      (allWords labels addr stmts) (allWords labels' addr' stmts) := by
  -- The addresses stay apart by `d`, because sizes do not depend on where a statement lies.
  induction stmts generalizing addr addr' with
  | nil => exact .ok (Word.Moved.refl.congr (by simp))
  | cons s rest ih =>
      simp only [allWords]
      cases he : s.isEnd with
      | true => exact .ok (Word.Moved.refl.congr (by simp))
      | false =>
          have hs := (words_shifted hl ha).with_left fun _ => length_of_words (s := s)
          refine hs.bind ?_
          rintro us us' ⟨hsize, hu⟩
          refine (ih ?_).bind fun vs vs' hv => .ok (hu.append hv (fun k hk => ?_) fun k => ?_)
          · rw [hu.length_eq]
            omega
          · exact isAddress_cons_left he (hsize ▸ hk)
          · rw [hsize]
            exact isAddress_cons_right he

end Stmt

/-! ## A whole program -/

variable {orig orig' : Word} {layout layout' : Layout}

theorem Layout.exists_addrOf? (h : ofStmts orig stmts = .ok layout) {i : Nat} {name : String}
    (hm : Stmt.Marks stmts i name) : ∃ w, layout.labels.addrOf? name = some w ∧
      w.toNat = orig.toNat + Stmt.offset stmts i := by
  obtain ⟨s, hs, l, hl, rfl⟩ := Stmt.marks_iff.1 hm
  have hfree := (exists_walk_iff.1 ⟨_, walk_of_ofStmts h⟩ i s hs).label l hl
  exact ⟨_, (addrOf?_of_ofStmts h).2 ⟨i, hm, toNat_addr hfree.inMemory⟩, toNat_addr hfree.inMemory⟩

/-- The layouts of a program at two origins bind the same names, as far apart as the origins. -/
theorem Layout.shifted_of_ofStmts (h : ofStmts orig stmts = .ok layout)
    (h' : ofStmts orig' stmts = .ok layout') :
    layout.labels.Shifted ((orig'.toNat : Int) - orig.toNat) layout'.labels := by
  intro name
  cases hw : layout.labels.addrOf? name with
  | none =>
      cases hw' : layout'.labels.addrOf? name with
      | none => exact .none
      | some w' =>
          obtain ⟨i, hm, -⟩ := (addrOf?_of_ofStmts h').1 hw'
          obtain ⟨w, hsome, -⟩ := exists_addrOf? h hm
          cases hw.symm.trans hsome
  | some w =>
      obtain ⟨i, hm, haddr⟩ := (addrOf?_of_ofStmts h).1 hw
      obtain ⟨w', hw', haddr'⟩ := exists_addrOf? h' hm
      rw [hw']
      refine .some ?_
      unfold Word.Apart
      omega

namespace ObjectFile

/-- A program that has a layout at two origins has as many words at both, and its labels are as far
apart as the origins. It is assembled at both or at none, with the same error if it is not and to
the same words if it is, but for the addresses that `.FILL` writes: they are as far apart as the
origins, too. -/
theorem relocate (h : Layout.ofStmts orig stmts = .ok layout)
    (h' : Layout.ofStmts orig' stmts = .ok layout') :
    layout'.length = layout.length ∧
      layout.labels.Shifted ((orig'.toNat : Int) - orig.toNat) layout'.labels ∧
        Agree (· = ·)
          (fun o o' => Word.Moved ((orig'.toNat : Int) - orig.toNat) (Stmt.IsAddress stmts)
            o.words o'.words)
          (ofStmts orig stmts layout.labels) (ofStmts orig' stmts layout'.labels) := by
  have hlabels := Layout.shifted_of_ofStmts h h'
  have hlength : layout'.length = layout.length := by
    rw [Layout.length_of_ofStmts h, Layout.length_of_ofStmts h']
  exact ⟨hlength, hlabels, (Stmt.allWords_shifted hlabels rfl).bind fun _ _ hw => .ok hw⟩

/-- A load of a label and its address, at the beginning of memory and at its end. -/
theorem relocate_to_end :
    let stmts : List Stmt :=
      [⟨none, some (.instr (.ld 1 (.label ⟨"A", ⟨6, 7⟩⟩))), 2⟩,
       ⟨some ⟨"A", ⟨0, 1⟩⟩, some (.directive (.fill (.label ⟨"A", ⟨8, 9⟩⟩))), 3⟩,
       ⟨none, some (.directive .finish), 4⟩]
    let low : Layout := ⟨.ofList [("A", 1)], 2⟩
    let high : Layout := ⟨.ofList [("A", 0xFFFF)], 2⟩
    Layout.ofStmts 0 stmts = .ok low ∧ Layout.ofStmts 0xFFFE stmts = .ok high ∧
      ofStmts 0 stmts low.labels = .ok ⟨0, [0x2200, 1], low.labels⟩ ∧
        ofStmts 0xFFFE stmts high.labels = .ok ⟨0xFFFE, [0x2200, 0xFFFF], high.labels⟩ ∧
          Word.Moved 0xFFFE (Stmt.IsAddress stmts) [0x2200, 1] [0x2200, 0xFFFF] := by
  intro stmts low high
  have h : Layout.ofStmts 0 stmts = .ok low := by decide
  have h' : Layout.ofStmts 0xFFFE stmts = .ok high := by decide
  have hlow : ofStmts 0 stmts low.labels = .ok ⟨0, [0x2200, 1], low.labels⟩ := by decide
  have hhigh : ofStmts 0xFFFE stmts high.labels = .ok ⟨0xFFFE, [0x2200, 0xFFFF], high.labels⟩ := by
    decide
  obtain ⟨-, -, hagree⟩ := relocate h h'
  rw [hlow, hhigh, Agree.ok_iff] at hagree
  exact ⟨h, h', hlow, hhigh, hagree⟩

end ObjectFile

end Lc3
