import Lc3.Layout
import Lc3.Proofs.LabelTable

/-!
# Where statements lie

A statement lies behind all statements before it, each of which takes up its size. The layout of a
program binds each label to the address where its statement lies, and nothing else.
-/

namespace Lc3.Stmt

/-- The statements that make words: those before the first `.END`. -/
def body (stmts : List Stmt) : List Stmt := stmts.takeWhile fun s => !s.isEnd

/-- The words that the statements before the `i`-th take up. -/
def offset (stmts : List Stmt) (i : Nat) : Nat := (stmts.take i).foldr (fun s n => s.size + n) 0

/-- The `i`-th statement, which is not behind the first `.END`, has the label `name`. -/
def Marks (stmts : List Stmt) (i : Nat) (name : String) : Prop :=
  i ≤ (body stmts).length ∧ ∃ s l, stmts[i]? = some s ∧ s.label = some l ∧ l.name = name

variable {s : Stmt} {rest stmts : List Stmt} {i : Nat} {name : String}

@[simp] theorem body_nil : body [] = [] := rfl

theorem body_cons_of_isEnd (h : s.isEnd = true) : body (s :: rest) = [] := by
  simp [body, h]

theorem body_cons (h : s.isEnd = false) : body (s :: rest) = s :: body rest := by
  simp [body, h]

@[simp] theorem offset_zero : offset stmts 0 = 0 := by simp [offset]

@[simp] theorem offset_succ : offset (s :: rest) (i + 1) = s.size + offset rest i := by
  simp [offset]

@[simp] theorem not_marks_nil : ¬ Marks [] i name := by simp [Marks]

@[simp] theorem marks_zero :
    Marks (s :: rest) 0 name ↔ ∃ l, s.label = some l ∧ l.name = name := by
  simp [Marks]

theorem marks_succ :
    Marks (s :: rest) (i + 1) name ↔ s.isEnd = false ∧ Marks rest i name := by
  cases h : s.isEnd with
  | true => simp [Marks, body_cons_of_isEnd h]
  | false => simp [Marks, body_cons h]

theorem exists_marks_cons {P : Nat → Prop} :
    (∃ i, Marks (s :: rest) i name ∧ P i) ↔
      (∃ l, s.label = some l ∧ l.name = name) ∧ P 0 ∨
        s.isEnd = false ∧ ∃ i, Marks rest i name ∧ P (i + 1) := by
  constructor
  · rintro ⟨_ | i, hm, hP⟩
    · exact .inl ⟨marks_zero.1 hm, hP⟩
    · exact .inr ⟨(marks_succ.1 hm).1, i, (marks_succ.1 hm).2, hP⟩
  · rintro (⟨hm, hP⟩ | ⟨he, i, hm, hP⟩)
    · exact ⟨0, marks_zero.2 hm, hP⟩
    · exact ⟨i + 1, marks_succ.2 ⟨he, hm⟩, hP⟩

end Lc3.Stmt

namespace Lc3.Layout

open Stmt

variable {s : Stmt} {stmts : List Stmt} {labels labels' : LabelTable} {addr stop : Nat}

theorem check_eq_ok : check addr = .ok () ↔ addr ≤ memorySize := by
  unfold check
  split <;> simp_all

/-! ## One label -/

/-- A label is bound if it lies within memory and neither its name nor its address is taken. -/
theorem bind_eq_ok : bind labels addr s = .ok labels' ↔
    (s.label = none ∧ labels' = labels) ∨
      ∃ l, s.label = some l ∧ addr < memorySize ∧ labels.addrOf? l.name = none ∧
        labels.nameAt? (BitVec.ofNat 16 addr) = none ∧
        labels' = labels.insert l.name (BitVec.ofNat 16 addr) := by
  cases hl : s.label with
  | none => simp [bind, hl, eq_comm]
  | some l =>
      simp only [bind, hl, check]
      by_cases hb : addr + 1 > memorySize
      · have : ¬ addr < memorySize := by omega
        simp [hb, this]
      · have : addr < memorySize := by omega
        cases ha : labels.addrOf? l.name with
        | some _ => simp [hb, ha]
        | none =>
            cases labels.nameAt? (BitVec.ofNat 16 addr) <;> simp [hb, this, ha, eq_comm]

theorem mem_bind (h : bind labels addr s = .ok labels') {e : Word × String} :
    e ∈ labels'.entries ↔ e ∈ labels.entries ∨
      (∃ l, s.label = some l ∧ l.name = e.2) ∧ e.1.toNat = addr := by
  rcases bind_eq_ok.1 h with ⟨hl, rfl⟩ | ⟨l, hl, hb, hname, haddr, rfl⟩
  · simp [hl]
  · have hto : (BitVec.ofNat 16 addr).toNat = addr := by
      simp only [BitVec.toNat_ofNat]
      exact Nat.mod_eq_of_lt hb
    rw [LabelTable.mem_insert_of_free hname haddr, or_comm]
    simp only [hl, Option.some.injEq, exists_eq_left']
    rw [Prod.ext_iff, ← BitVec.toNat_inj, hto]
    tauto

/-! ## A whole program -/

theorem walk_cons {rest : List Stmt}
    (h : walk labels addr (s :: rest) = .ok (some (labels', stop))) :
    ∃ bound, bind labels addr s = .ok bound ∧
      (s.isEnd = true ∧ bound = labels' ∧ stop = addr ∨
        s.isEnd = false ∧ addr + s.size ≤ memorySize ∧
          walk bound (addr + s.size) rest = .ok (some (labels', stop))) := by
  simp only [walk] at h
  cases hb : bind labels addr s with
  | error e => simp [hb, Except.bind, Bind.bind] at h
  | ok bound =>
      refine ⟨bound, rfl, ?_⟩
      simp only [hb, Bind.bind, Except.bind, pure, Except.pure] at h
      cases he : s.isEnd with
      | true =>
          simp only [he, ↓reduceIte, Except.ok.injEq, Option.some.injEq, Prod.mk.injEq] at h
          exact .inl ⟨rfl, h.1, h.2.symm⟩
      | false =>
          simp only [he, Bool.false_eq_true, ↓reduceIte] at h
          split at h
          · cases h
          · rename_i hc
            exact .inr ⟨rfl, check_eq_ok.1 hc, h⟩

theorem stop_of_walk (h : walk labels addr stmts = .ok (some (labels', stop))) :
    stop = addr + offset stmts (body stmts).length ∧ (addr ≤ memorySize → stop ≤ memorySize) := by
  induction stmts generalizing labels addr with
  | nil => simp [walk] at h
  | cons s rest ih =>
      obtain ⟨bound, -, ⟨he, -, rfl⟩ | ⟨he, hs, hw⟩⟩ := walk_cons h
      · simp [body_cons_of_isEnd he]
      · have := ih hw
        simp only [body_cons he, List.length_cons, offset_succ]
        exact ⟨by omega, fun _ => this.2 hs⟩

/-- The bindings after a walk: those before, and each label where its statement lies. -/
theorem mem_walk (h : walk labels addr stmts = .ok (some (labels', stop))) {e : Word × String} :
    e ∈ labels'.entries ↔ e ∈ labels.entries ∨
      ∃ i, Marks stmts i e.2 ∧ e.1.toNat = addr + offset stmts i := by
  induction stmts generalizing labels addr with
  | nil => simp [walk] at h
  | cons s rest ih =>
      rw [exists_marks_cons (P := fun i => e.1.toNat = addr + offset (s :: rest) i)]
      obtain ⟨bound, hb, ⟨he, rfl, -⟩ | ⟨he, -, hw⟩⟩ := walk_cons h
      · simp [mem_bind hb, he]
      · rw [ih hw, mem_bind hb]
        simp [he, Nat.add_assoc, or_assoc]

theorem walk_of_ofStmts {orig : Word} {layout : Layout} (h : ofStmts orig stmts = .ok layout) :
    walk .empty orig.toNat stmts = .ok (some (layout.labels, orig.toNat + layout.length)) := by
  simp only [ofStmts, Bind.bind, Except.bind] at h
  split at h
  · cases h
  · rename_i r hr
    split at h
    · rename_i labels stop
      simp only [pure, Except.pure, Except.ok.injEq] at h
      subst h
      have := (stop_of_walk hr).1
      rw [hr, show orig.toNat + (stop - orig.toNat) = stop by omega]
    · cases h

theorem length_of_ofStmts {orig : Word} {layout : Layout} (h : ofStmts orig stmts = .ok layout) :
    layout.length = offset stmts (body stmts).length := by
  have := (stop_of_walk (walk_of_ofStmts h)).1
  omega

theorem end_le_of_ofStmts {orig : Word} {layout : Layout} (h : ofStmts orig stmts = .ok layout) :
    orig.toNat + layout.length ≤ memorySize :=
  (stop_of_walk (walk_of_ofStmts h)).2 (Nat.le_of_lt orig.isLt)

/-- The layout binds a name exactly to the address where the statement with that label lies. -/
theorem addrOf?_of_ofStmts {orig : Word} {layout : Layout} (h : ofStmts orig stmts = .ok layout)
    {name : String} {w : Word} : layout.labels.addrOf? name = some w ↔
      ∃ i, Marks stmts i name ∧ w.toNat = orig.toNat + offset stmts i := by
  rw [LabelTable.addrOf?_eq_some_iff, mem_walk (walk_of_ofStmts h)]
  simp

end Lc3.Layout
