import Lc3.Proofs.Placement
import Lc3.Proofs.Reading

/-!
# Which programs have a layout

A statement is well placed if its label is at an address of memory and neither its name nor its
address is taken before, and if the statement ends within memory. Main statement: a program has a
layout exactly if it has an end and every statement up to it is well placed; if it has none, the
error is that of the first statement that is not well placed, or that the end is missing.
-/

namespace Lc3.Stmt

/-- The `i`-th statement is `s`, and it is not behind the first `.END`. -/
def Counts (stmts : List Stmt) (i : Nat) (s : Stmt) : Prop :=
  i ≤ (body stmts).length ∧ stmts[i]? = some s

variable {s t : Stmt} {rest stmts : List Stmt} {i j : Nat} {name : String}

theorem marks_iff : Marks stmts i name ↔
    ∃ s, Counts stmts i s ∧ ∃ l, s.label = some l ∧ l.name = name := by
  constructor
  · rintro ⟨hi, s, l, hs, hl, hn⟩
    exact ⟨s, ⟨hi, hs⟩, l, hl, hn⟩
  · rintro ⟨s, ⟨hi, hs⟩, l, hl, hn⟩
    exact ⟨hi, s, l, hs, hl, hn⟩

theorem Counts.unique (h : Counts stmts i s) (h' : Counts stmts i t) : s = t :=
  Option.some.inj (h.2.symm.trans h'.2)

theorem counts_succ :
    Counts (s :: rest) (i + 1) t ↔ s.isEnd = false ∧ Counts rest i t := by
  cases h : s.isEnd with
  | true => simp [Counts, body_cons_of_isEnd h]
  | false => simp [Counts, body_cons h]

/-- The first `.END` is behind the statements that make words. -/
theorem Counts.isEnd_iff (h : Counts stmts i s) : s.isEnd = true ↔ i = (body stmts).length := by
  induction stmts generalizing i with
  | nil => simp [Counts] at h
  | cons t rest ih =>
      cases he : t.isEnd with
      | true =>
          have hi : i = 0 := by simpa [body_cons_of_isEnd he] using h.1
          subst hi
          obtain rfl : t = s := by simpa using h.2
          simp [he, body_cons_of_isEnd he]
      | false =>
          cases i with
          | zero =>
              obtain rfl : t = s := by simpa using h.2
              simp [he, body_cons he]
          | succ i =>
              rw [ih (counts_succ.1 h).2, body_cons he]
              simp

theorem offset_next (h : stmts[i]? = some s) :
    offset stmts (i + 1) = offset stmts i + s.size := by
  induction stmts generalizing i with
  | nil => simp at h
  | cons t rest ih =>
      cases i with
      | zero =>
          obtain rfl : t = s := by simpa using h
          simp
      | succ i =>
          rw [offset_succ, offset_succ, ih (by simpa using h), Nat.add_assoc]

theorem offset_mono (h : i ≤ j) : offset stmts i ≤ offset stmts j := by
  induction stmts generalizing i j with
  | nil => simp [offset]
  | cons t rest ih =>
      cases i with
      | zero => simp
      | succ i =>
          obtain ⟨j, rfl⟩ : ∃ k, j = k + 1 := ⟨j - 1, by omega⟩
          rw [offset_succ, offset_succ]
          exact Nat.add_le_add_left (ih (Nat.le_of_succ_le_succ h)) _

end Lc3.Stmt

namespace Lc3.Layout

open Stmt

/-! ## Rules and faults -/

/-- A label of the `i`-th statement may have this name: it is at an address of memory, and no
statement before has a label of this name or at this address. -/
structure Free (orig : Nat) (stmts : List Stmt) (i : Nat) (name : String) : Prop where
  inMemory : orig + offset stmts i < memorySize
  newName : ∀ j < i, ¬ Marks stmts j name
  newAddr : ∀ j < i, ∀ x, Marks stmts j x → offset stmts j ≠ offset stmts i

/-- The `i`-th statement is well placed: its label is free, and it ends within memory. -/
structure Fits (orig : Nat) (stmts : List Stmt) (i : Nat) (s : Stmt) : Prop where
  label : ∀ l, s.label = some l → Free orig stmts i l.name
  stop_le : orig + offset stmts i + s.size ≤ memorySize

/-- What is wrong with the `i`-th statement. Its label is looked at first: whether it is within
memory, then its name, then its address. -/
inductive Breach (orig : Nat) (stmts : List Stmt) (i : Nat) (s : Stmt) : AsmError → Prop
  | memory {l : Label} (hl : s.label = some l) (hpast : memorySize ≤ orig + offset stmts i) :
      Breach orig stmts i s (.ofLine s.line (.pastMemory (orig + offset stmts i + 1)))
  | name {l : Label} {j : Nat} {w : Word} (hl : s.label = some l)
      (hin : orig + offset stmts i < memorySize) (hj : j < i) (hm : Marks stmts j l.name)
      (hw : w.toNat = orig + offset stmts j) :
      Breach orig stmts i s ⟨.duplicateLabel l.name w, s.line, l.cols⟩
  | addr {l : Label} {j : Nat} {x : String} {w : Word} (hl : s.label = some l)
      (hin : orig + offset stmts i < memorySize) (hnew : ∀ k < i, ¬ Marks stmts k l.name)
      (hj : j < i) (hm : Marks stmts j x) (hsame : offset stmts j = offset stmts i)
      (hw : w.toNat = orig + offset stmts i) :
      Breach orig stmts i s ⟨.duplicateAddress x w, s.line, l.cols⟩
  | stop (hl : ∀ l, s.label = some l → Free orig stmts i l.name)
      (hpast : memorySize < orig + offset stmts i + s.size) :
      Breach orig stmts i s (.ofLine s.line (.pastMemory (orig + offset stmts i + s.size)))

/-- The first statement that is not well placed, and what is wrong with it. -/
def FirstBreach (orig : Nat) (stmts : List Stmt) (e : AsmError) : Prop :=
  ∃ i s, Counts stmts i s ∧ Breach orig stmts i s e ∧
    ∀ j < i, ∀ t, Counts stmts j t → Fits orig stmts j t

/-- The programs that have a layout: up to the first `.END`, which there is, labels are within
memory, their names are different and so are their addresses, and statements end within memory. -/
structure WellPlaced (orig : Nat) (stmts : List Stmt) : Prop where
  ends : ∃ s ∈ stmts, s.isEnd = true
  label_lt : ∀ i x, Marks stmts i x → orig + offset stmts i < memorySize
  names : ∀ i j x, Marks stmts i x → Marks stmts j x → i = j
  addrs : ∀ i j x y, Marks stmts i x → Marks stmts j y → offset stmts i = offset stmts j → i = j
  stop_le : ∀ i s, Counts stmts i s → orig + offset stmts i + s.size ≤ memorySize

variable {orig addr i j : Nat} {stmts : List Stmt} {s : Stmt} {e e' : AsmError}
  {labels labels' : LabelTable}

theorem toNat_addr (h : addr < memorySize) : (BitVec.ofNat 16 addr).toNat = addr :=
  Nat.mod_eq_of_lt h

theorem fits_iff : Fits orig stmts i s ↔ ∀ e, ¬ Breach orig stmts i s e := by
  constructor
  · rintro ⟨hlabel, hstop⟩ e (⟨hl, hpast⟩ | ⟨hl, -, hj, hm, -⟩ | ⟨hl, -, -, hj, hm, hsame, -⟩ |
      ⟨-, hpast⟩)
    · exact absurd (hlabel _ hl).inMemory (Nat.not_lt.2 hpast)
    · exact (hlabel _ hl).newName _ hj hm
    · exact (hlabel _ hl).newAddr _ hj _ hm hsame
    · exact absurd hstop (Nat.not_le.2 hpast)
  · intro h
    have hlabel : ∀ l, s.label = some l → Free orig stmts i l.name := by
      intro l hl
      have hin : orig + offset stmts i < memorySize := by
        by_contra hpast
        exact h _ (.memory hl (Nat.not_lt.1 hpast))
      have hnew : ∀ j < i, ¬ Marks stmts j l.name := by
        intro j hj hm
        have hle : offset stmts j ≤ offset stmts i := offset_mono (Nat.le_of_lt hj)
        have hw := toNat_addr (show orig + offset stmts j < memorySize by omega)
        exact h _ (.name hl hin hj hm hw)
      refine ⟨hin, hnew, fun j hj x hm hsame => ?_⟩
      exact h _ (.addr hl hin hnew hj hm hsame (toNat_addr hin))
    refine ⟨hlabel, ?_⟩
    by_contra hpast
    exact h _ (.stop hlabel (Nat.not_le.1 hpast))

theorem wellPlaced_iff : WellPlaced orig stmts ↔
    (∃ s ∈ stmts, s.isEnd = true) ∧ ∀ i s, Counts stmts i s → Fits orig stmts i s := by
  constructor
  · rintro ⟨hend, hlt, hnames, haddrs, hstop⟩
    refine ⟨hend, fun i s hs => ⟨fun l hl => ?_, hstop i s hs⟩⟩
    have hm : Marks stmts i l.name := marks_iff.2 ⟨s, hs, l, hl, rfl⟩
    exact ⟨hlt i _ hm, fun j hj hm' => absurd (hnames j i _ hm' hm) (Nat.ne_of_lt hj),
      fun j hj x hx hsame => absurd (haddrs j i x _ hx hm hsame) (Nat.ne_of_lt hj)⟩
  · rintro ⟨hend, hfits⟩
    have hfree {i : Nat} {x : String} (hm : Marks stmts i x) : Free orig stmts i x := by
      obtain ⟨s, hs, l, hl, rfl⟩ := marks_iff.1 hm
      exact (hfits i s hs).label l hl
    refine ⟨hend, fun i x hm => (hfree hm).inMemory, fun i j x hi hj => ?_,
      fun i j x y hi hj hsame => ?_, fun i s hs => (hfits i s hs).stop_le⟩
    · rcases Nat.lt_trichotomy i j with h | h | h
      · exact absurd hi ((hfree hj).newName i h)
      · exact h
      · exact absurd hj ((hfree hi).newName j h)
    · rcases Nat.lt_trichotomy i j with h | h | h
      · exact absurd hsame ((hfree hj).newAddr i h x hi)
      · exact h
      · exact absurd hsame.symm ((hfree hi).newAddr j h y hj)

/-- Statements are well placed as long as none is the first that is not. -/
theorem fits_of_no_breach (h : ∀ e, ¬ FirstBreach orig stmts e) (i : Nat) (s : Stmt)
    (hs : Counts stmts i s) : Fits orig stmts i s := by
  induction i using Nat.strongRecOn generalizing s with
  | ind i ih =>
      rw [fits_iff]
      exact fun e he => h e ⟨i, s, hs, he, ih⟩

/-! ## The table on the way -/

/-- A table binds the labels of the statements before the `i`-th, and nothing else. -/
def Binds (labels : LabelTable) (orig : Nat) (stmts : List Stmt) (i : Nat) : Prop :=
  ∀ e, e ∈ labels.entries ↔ ∃ j < i, Marks stmts j e.2 ∧ e.1.toNat = orig + offset stmts j

theorem binds_zero : Binds .empty orig stmts 0 := by simp [Binds]

theorem Binds.addrOf? (h : Binds labels orig stmts i) {x : String} {w : Word} :
    labels.addrOf? x = some w ↔ ∃ j < i, Marks stmts j x ∧ w.toNat = orig + offset stmts j := by
  rw [LabelTable.addrOf?_eq_some_iff, h]

theorem Binds.addrOf?_eq_none (h : Binds labels orig stmts i)
    (hin : orig + offset stmts i < memorySize) {x : String} :
    labels.addrOf? x = none ↔ ∀ j < i, ¬ Marks stmts j x := by
  rw [Option.eq_none_iff_forall_ne_some]
  constructor
  · intro hnone j hj hm
    have hle : offset stmts j ≤ offset stmts i := offset_mono (Nat.le_of_lt hj)
    have hw := toNat_addr (show orig + offset stmts j < memorySize by omega)
    exact hnone _ (h.addrOf?.2 ⟨j, hj, hm, hw⟩)
  · intro hnew w hw
    obtain ⟨j, hj, hm, -⟩ := h.addrOf?.1 hw
    exact hnew j hj hm

theorem Binds.nameAt? (h : Binds labels orig stmts i) {x : String} {w : Word}
    (hw : w.toNat = orig + offset stmts i) :
    labels.nameAt? w = some x ↔ ∃ j < i, Marks stmts j x ∧ offset stmts j = offset stmts i := by
  have hsame (j : Nat) : w.toNat = orig + offset stmts j ↔ offset stmts j = offset stmts i := by
    omega
  simp only [LabelTable.nameAt?_eq_some_iff, h (w, x), hsame]

theorem Binds.nameAt?_eq_none (h : Binds labels orig stmts i) {w : Word}
    (hw : w.toNat = orig + offset stmts i) :
    labels.nameAt? w = none ↔ ∀ j < i, ∀ x, Marks stmts j x → offset stmts j ≠ offset stmts i := by
  rw [Option.eq_none_iff_forall_ne_some]
  constructor
  · exact fun hnone j hj x hm hsame => hnone x ((h.nameAt? hw).2 ⟨j, hj, hm, hsame⟩)
  · intro hnew x hx
    obtain ⟨j, hj, hm, hsame⟩ := (h.nameAt? hw).1 hx
    exact hnew j hj x hm hsame

theorem Binds.next (h : Binds labels orig stmts i) (hs : Counts stmts i s)
    (hb : bind labels (orig + offset stmts i) s = .ok labels') :
    Binds labels' orig stmts (i + 1) := by
  have hmarks {x : String} : (∃ l, s.label = some l ∧ l.name = x) ↔ Marks stmts i x := by
    rw [marks_iff]
    exact ⟨fun hl => ⟨s, hs, hl⟩, fun ⟨t, ht, hl⟩ => hs.unique ht ▸ hl⟩
  intro e
  rw [mem_bind hb, h, hmarks]
  constructor
  · rintro (⟨j, hj, hm⟩ | hm)
    · exact ⟨j, by omega, hm⟩
    · exact ⟨i, by omega, hm⟩
  · rintro ⟨j, hj, hm⟩
    rcases Nat.lt_succ_iff_lt_or_eq.1 hj with hj | rfl
    · exact .inl ⟨j, hj, hm⟩
    · exact .inr hm

/-! ## One statement -/

theorem check_eq_error {cause : Cause} :
    check addr = .error cause ↔ memorySize < addr ∧ cause = .pastMemory addr := by
  unfold check
  split
  · rename_i h
    simp [show memorySize < addr from h, eq_comm]
  · rename_i h
    simp [show ¬ memorySize < addr from h]

theorem bind_eq_error : bind labels addr s = .error e ↔ ∃ l, s.label = some l ∧
    (memorySize ≤ addr ∧ e = .ofLine s.line (.pastMemory (addr + 1)) ∨
      addr < memorySize ∧
        ((∃ w, labels.addrOf? l.name = some w ∧ e = ⟨.duplicateLabel l.name w, s.line, l.cols⟩) ∨
          labels.addrOf? l.name = none ∧ ∃ x, labels.nameAt? (BitVec.ofNat 16 addr) = some x ∧
            e = ⟨.duplicateAddress x (BitVec.ofNat 16 addr), s.line, l.cols⟩)) := by
  cases hl : s.label with
  | none => simp [bind, hl]
  | some l =>
      simp only [bind, hl, check, Option.some.injEq, exists_eq_left']
      by_cases hb : addr + 1 > memorySize
      · have hle : memorySize ≤ addr := by omega
        simp [hb, hle, Nat.not_lt.2 hle, eq_comm]
      · have hlt : addr < memorySize := by omega
        have hle : ¬ memorySize ≤ addr := by omega
        cases labels.addrOf? l.name with
        | some _ => simp [hb, hlt, hle, eq_comm]
        | none =>
            cases labels.nameAt? (BitVec.ofNat 16 addr) <;> simp [hb, hlt, hle, eq_comm]

theorem breach_of_bind (h : Binds labels orig stmts i)
    (hb : bind labels (orig + offset stmts i) s = .error e) : Breach orig stmts i s e := by
  obtain ⟨l, hl, ⟨hpast, rfl⟩ | ⟨hin, ⟨w, hw, rfl⟩ | ⟨hnone, x, hx, rfl⟩⟩⟩ := bind_eq_error.1 hb
  · exact .memory hl hpast
  · obtain ⟨j, hj, hm, hw⟩ := h.addrOf?.1 hw
    exact .name hl hin hj hm hw
  · obtain ⟨j, hj, hm, hsame⟩ := (h.nameAt? (toNat_addr hin)).1 hx
    exact .addr hl hin ((h.addrOf?_eq_none hin).1 hnone) hj hm hsame (toNat_addr hin)

theorem exists_bind_iff (h : Binds labels orig stmts i) :
    (∃ bound, bind labels (orig + offset stmts i) s = .ok bound) ↔
      ∀ l, s.label = some l → Free orig stmts i l.name := by
  simp only [bind_eq_ok]
  constructor
  · rintro ⟨bound, ⟨hl, -⟩ | ⟨l, hl, hin, hname, haddr, -⟩⟩ l' hl'
    · cases hl.symm.trans hl'
    · cases hl.symm.trans hl'
      exact ⟨hin, (h.addrOf?_eq_none hin).1 hname, (h.nameAt?_eq_none (toNat_addr hin)).1 haddr⟩
  · intro hfree
    cases hl : s.label with
    | none => exact ⟨labels, .inl ⟨rfl, rfl⟩⟩
    | some l =>
        obtain ⟨hin, hname, haddr⟩ := hfree l hl
        exact ⟨_, .inr ⟨l, rfl, hin, (h.addrOf?_eq_none hin).2 hname,
          (h.nameAt?_eq_none (toNat_addr hin)).2 haddr, rfl⟩⟩

theorem bind_of_breach (h : Binds labels orig stmts i) (hb : Breach orig stmts i s e) :
    bind labels (orig + offset stmts i) s = .error e ∨
      (∃ bound, bind labels (orig + offset stmts i) s = .ok bound) ∧
        memorySize < orig + offset stmts i + s.size ∧
          e = .ofLine s.line (.pastMemory (orig + offset stmts i + s.size)) := by
  cases hb with
  | memory hl hpast => exact .inl (bind_eq_error.2 ⟨_, hl, .inl ⟨hpast, rfl⟩⟩)
  | name hl hin hj hm hw =>
      have hname := h.addrOf?.2 ⟨_, hj, hm, hw⟩
      exact .inl (bind_eq_error.2 ⟨_, hl, .inr ⟨hin, .inl ⟨_, hname, rfl⟩⟩⟩)
  | addr hl hin hnew hj hm hsame hw =>
      have hname := (h.addrOf?_eq_none hin).2 hnew
      have haddr := (h.nameAt? (toNat_addr hin)).2 ⟨_, hj, hm, hsame⟩
      obtain rfl := BitVec.eq_of_toNat_eq (hw.trans (toNat_addr hin).symm)
      exact .inl (bind_eq_error.2 ⟨_, hl, .inr ⟨hin, .inr ⟨hname, _, haddr, rfl⟩⟩⟩)
  | stop hl hpast => exact .inr ⟨(exists_bind_iff h).2 hl, hpast, rfl⟩

/-! ## All statements -/

theorem size_of_isEnd (h : s.isEnd = true) : s.size = 0 := by
  have hc : s.command = some (.directive .finish) := by simpa [isEnd] using h
  rw [Stmt.size, hc]
  rfl

theorem walk_cons_eq_error {rest : List Stmt} : walk labels addr (s :: rest) = .error e ↔
    bind labels addr s = .error e ∨ ∃ bound, bind labels addr s = .ok bound ∧ s.isEnd = false ∧
      (memorySize < addr + s.size ∧ e = .ofLine s.line (.pastMemory (addr + s.size)) ∨
        addr + s.size ≤ memorySize ∧ walk bound (addr + s.size) rest = .error e) := by
  cases hb : bind labels addr s with
  | error e' => simp [walk, hb, Bind.bind, Except.bind]
  | ok bound =>
      cases he : s.isEnd with
      | true => simp [walk, hb, he, Bind.bind, Except.bind, pure, Except.pure]
      | false =>
          by_cases hpast : memorySize < addr + s.size
          · have hcheck := check_eq_error.2 ⟨hpast, rfl⟩
            simp [walk, hb, he, hcheck, hpast, Nat.not_le.2 hpast, Bind.bind, Except.bind, eq_comm]
          · have hcheck := check_eq_ok.2 (Nat.not_lt.1 hpast)
            simp [walk, hb, he, hcheck, hpast, Nat.not_lt.1 hpast, Bind.bind, Except.bind]

theorem firstBreach_iff (hs : Counts stmts i s) (hfit : ¬ Fits orig stmts i s)
    (hbefore : ∀ j < i, ∀ t, Counts stmts j t → Fits orig stmts j t) :
    FirstBreach orig stmts e ↔ Breach orig stmts i s e := by
  refine ⟨?_, fun h => ⟨i, s, hs, h, hbefore⟩⟩
  rintro ⟨k, t, ht, hbreach, hmin⟩
  rcases Nat.lt_trichotomy k i with hlt | rfl | hlt
  · exact absurd hbreach (fits_iff.1 (hbefore k hlt t ht) e)
  · exact hs.unique ht ▸ hbreach
  · exact absurd (hmin i hlt s hs) hfit

theorem not_firstBreach (hbefore : ∀ i s, Counts stmts i s → Fits orig stmts i s) :
    ¬ FirstBreach orig stmts e := by
  rintro ⟨k, t, ht, hbreach, -⟩
  exact fits_iff.1 (hbefore k t ht) e hbreach

theorem walk_of_not_fits {rest : List Stmt} (hb : Binds labels orig stmts i)
    (hstart : orig + offset stmts i ≤ memorySize) (hfit : ¬ Fits orig stmts i s) :
    walk labels (orig + offset stmts i) (s :: rest) = .error e ↔ Breach orig stmts i s e := by
  rw [walk_cons_eq_error]
  constructor
  · rintro (herr | ⟨bound, hbound, -, ⟨hpast, rfl⟩ | ⟨hle, -⟩⟩)
    · exact breach_of_bind hb herr
    · exact .stop ((exists_bind_iff hb).1 ⟨bound, hbound⟩) hpast
    · exact absurd ⟨(exists_bind_iff hb).1 ⟨bound, hbound⟩, hle⟩ hfit
  · intro hbreach
    rcases bind_of_breach hb hbreach with herr | ⟨⟨bound, hbound⟩, hpast, rfl⟩
    · exact .inl herr
    · refine .inr ⟨bound, hbound, ?_, .inl ⟨hpast, rfl⟩⟩
      by_contra hend
      rw [size_of_isEnd (by simpa using hend)] at hpast
      exact absurd hstart (Nat.not_le.2 hpast)

/-- The walk over the statements from the `i`-th on, if those before are well placed, fails with the
first breach. -/
theorem walk_eq_error (hb : Binds labels orig stmts i) (hi : i ≤ (body stmts).length)
    (hstart : orig + offset stmts i ≤ memorySize)
    (hbefore : ∀ j < i, ∀ t, Counts stmts j t → Fits orig stmts j t) :
    walk labels (orig + offset stmts i) (stmts.drop i) = .error e ↔ FirstBreach orig stmts e := by
  -- On the way the table binds the labels of the statements before, which are well placed.
  generalize hrest : stmts.drop i = rest
  induction rest generalizing i labels with
  | nil =>
      have hlen : stmts.length ≤ i := List.drop_eq_nil_iff.1 hrest
      have hall : ∀ k t, Counts stmts k t → Fits orig stmts k t := by
        intro k t ht
        obtain ⟨hk, -⟩ := List.getElem?_eq_some_iff.1 ht.2
        exact hbefore k (Nat.lt_of_lt_of_le hk hlen) t ht
      simp [walk, not_firstBreach hall]
  | cons s rest ih =>
      have hs : Counts stmts i s := ⟨hi, by rw [← List.head?_drop, hrest]; rfl⟩
      by_cases hfit : Fits orig stmts i s
      · have hupto : ∀ j < i + 1, ∀ t, Counts stmts j t → Fits orig stmts j t := by
          intro j hj t ht
          rcases Nat.lt_succ_iff_lt_or_eq.1 hj with hj | rfl
          · exact hbefore j hj t ht
          · exact hs.unique ht ▸ hfit
        obtain ⟨bound, hbound⟩ := (exists_bind_iff hb).2 hfit.label
        cases he : s.isEnd with
        | true =>
            have hend := hs.isEnd_iff.1 he
            have hall : ∀ k t, Counts stmts k t → Fits orig stmts k t := by
              intro k t ht
              have := ht.1
              exact hupto k (by omega) t ht
            simp [walk_cons_eq_error, hbound, he, not_firstBreach hall]
        | false =>
            have hlt : i ≠ (body stmts).length := fun h => by simp [hs.isEnd_iff.2 h] at he
            have hstop := hfit.stop_le
            have hnext : stmts.drop (i + 1) = rest := by
              rw [← List.tail_drop, hrest]
              rfl
            rw [← ih (hb.next hs hbound) (by omega) (by rwa [offset_next hs.2, ← Nat.add_assoc])
              hupto hnext, offset_next hs.2, walk_cons_eq_error, ← Nat.add_assoc]
            simp [hbound, he, Nat.not_lt.2 hstop, hstop]
      · rw [walk_of_not_fits hb hstart hfit, firstBreach_iff hs hfit hbefore]

theorem isSome_walk {r : Option (LabelTable × Nat)} (h : walk labels addr stmts = .ok r) :
    r.isSome = true ↔ ∃ s ∈ stmts, s.isEnd = true := by
  induction stmts generalizing labels addr with
  | nil =>
      cases h
      simp
  | cons s rest ih =>
      simp only [walk, Lc3.bind_eq_ok] at h
      obtain ⟨bound, -, h⟩ := h
      cases he : s.isEnd with
      | true =>
          simp only [he, ↓reduceIte, pure_eq_ok] at h
          simp [← h, he]
      | false =>
          simp only [he, Bool.false_eq_true, ↓reduceIte] at h
          split at h
          · cases h
          · simp [ih h, he]

theorem ofStmts_eq_error {orig : Word} : ofStmts orig stmts = .error e ↔
    walk .empty orig.toNat stmts = .error e ∨
      walk .empty orig.toNat stmts = .ok none ∧ e = .ofLine (lastLine stmts) .missingEnd := by
  simp only [ofStmts, Bind.bind, Except.bind]
  cases walk .empty orig.toNat stmts with
  | error e' => simp
  | ok r => cases r <;> simp [pure, Except.pure, eq_comm]

theorem exists_ofStmts {orig : Word} : (∃ layout, ofStmts orig stmts = .ok layout) ↔
    ∃ r, walk .empty orig.toNat stmts = .ok (some r) := by
  simp only [ofStmts, Bind.bind, Except.bind]
  cases walk .empty orig.toNat stmts with
  | error e' => simp
  | ok r => cases r <;> simp [pure, Except.pure]

theorem walk_eq_error_iff {orig : Word} :
    walk .empty orig.toNat stmts = .error e ↔ FirstBreach orig.toNat stmts e := by
  have hzero : Binds .empty orig.toNat stmts 0 := binds_zero
  have hstart : orig.toNat + offset stmts 0 ≤ memorySize := Nat.le_of_lt orig.isLt
  have := walk_eq_error (e := e) hzero (Nat.zero_le _) hstart (by simp)
  simpa using this

theorem exists_walk_iff {orig : Word} : (∃ r, walk .empty orig.toNat stmts = .ok r) ↔
    ∀ i s, Counts stmts i s → Fits orig.toNat stmts i s := by
  constructor
  · rintro ⟨r, hr⟩
    refine fits_of_no_breach fun e he => ?_
    cases hr.symm.trans (walk_eq_error_iff.2 he)
  · intro hfits
    cases hw : walk .empty orig.toNat stmts with
    | error e => exact absurd (walk_eq_error_iff.1 hw) (not_firstBreach hfits)
    | ok r => exact ⟨r, rfl⟩

/-- A program has a layout exactly if it is well placed. The layout binds each label to the address
where its statement lies, and nothing else, and ends where `.END` lies. The error of another program
is that of its first statement that is not well placed, or if there is none, that the end is
missing. -/
theorem ofStmts_iff_wellPlaced (orig : Word) (stmts : List Stmt) :
    ((∃ layout, ofStmts orig stmts = .ok layout) ↔ WellPlaced orig.toNat stmts) ∧
    (∀ layout, ofStmts orig stmts = .ok layout →
      layout.length = offset stmts (body stmts).length ∧
        ∀ x w, (w, x) ∈ layout.labels.entries ↔
          ∃ i, Marks stmts i x ∧ w.toNat = orig.toNat + offset stmts i) ∧
    ∀ e, ofStmts orig stmts = .error e ↔
      FirstBreach orig.toNat stmts e ∨
        (∀ i s, Counts stmts i s → Fits orig.toNat stmts i s) ∧
          (∀ s ∈ stmts, s.isEnd = false) ∧ e = .ofLine (lastLine stmts) .missingEnd := by
  refine ⟨?_, fun layout h => ⟨length_of_ofStmts h, fun x w => ?_⟩, fun e => ?_⟩
  · rw [exists_ofStmts, wellPlaced_iff, ← exists_walk_iff]
    constructor
    · rintro ⟨r, hr⟩
      exact ⟨(isSome_walk hr).1 rfl, _, hr⟩
    · rintro ⟨hend, r, hr⟩
      obtain ⟨r, rfl⟩ := Option.isSome_iff_exists.1 ((isSome_walk hr).2 hend)
      exact ⟨r, hr⟩
  · rw [mem_walk (walk_of_ofStmts h)]
    simp
  · rw [ofStmts_eq_error, walk_eq_error_iff, ← exists_walk_iff]
    refine or_congr_right ⟨?_, ?_⟩
    · rintro ⟨hr, rfl⟩
      refine ⟨⟨_, hr⟩, fun s hs => ?_, rfl⟩
      by_contra hend
      have := (isSome_walk hr).2 ⟨s, hs, by simpa using hend⟩
      cases this
    · rintro ⟨⟨r, hr⟩, hno, rfl⟩
      refine ⟨?_, rfl⟩
      cases r with
      | none => exact hr
      | some r =>
          obtain ⟨s, hs, hend⟩ := (isSome_walk hr).1 rfl
          cases (hno s hs).symm.trans hend

/-- A label on `.END` at the last address of memory, and just past it. -/
theorem ofStmts_iff_wellPlaced_edge :
    let stmts : List Stmt :=
      [⟨some ⟨"A", ⟨0, 1⟩⟩, some (.directive (.block 2)), 2⟩,
       ⟨some ⟨"B", ⟨0, 1⟩⟩, some (.directive .finish), 3⟩]
    let past : AsmError := .ofLine 3 (.pastMemory 0x10001)
    ofStmts 0xFFFD stmts = .ok ⟨.ofList [("A", 0xFFFD), ("B", 0xFFFF)], 2⟩ ∧
      WellPlaced 0xFFFD stmts ∧ offset stmts (body stmts).length = 2 ∧
        (∃ i, Marks stmts i "B" ∧ (0xFFFF : Word).toNat = 0xFFFD + offset stmts i) ∧
          ofStmts 0xFFFE stmts = .error past ∧ FirstBreach 0xFFFE stmts past := by
  intro stmts past
  have hok : ofStmts 0xFFFD stmts = .ok ⟨.ofList [("A", 0xFFFD), ("B", 0xFFFF)], 2⟩ := by
    decide
  have herr : ofStmts 0xFFFE stmts = .error past := by decide
  obtain ⟨hwell, hlayout, -⟩ := ofStmts_iff_wellPlaced 0xFFFD stmts
  obtain ⟨hlength, hlabels⟩ := hlayout _ hok
  obtain ⟨-, -, hfail⟩ := ofStmts_iff_wellPlaced 0xFFFE stmts
  refine ⟨hok, hwell.1 ⟨_, hok⟩, hlength.symm, (hlabels "B" 0xFFFF).1 (by decide), herr, ?_⟩
  rcases (hfail past).1 herr with hfirst | ⟨-, -, hend⟩
  · exact hfirst
  · exact absurd hend (by decide)

end Lc3.Layout
