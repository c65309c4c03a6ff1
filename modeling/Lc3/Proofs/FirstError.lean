import Lc3.Proofs.Passes
import Lc3.Proofs.Places
import Lc3.Proofs.WellPlaced

/-!
# The first error of a source

A source is assembled in phases, and a phase fails on some of its lines. Main statement: a source
has an error exactly if some phase fails, and the error is that of the first line on which the first
such phase does. It stands on this line, in columns of the line's text if it has any.
-/

namespace Lc3

/-- A check finds an error at an element of a list, and none at any element before it. -/
def FirstAt {α : Type} (xs : List α) (P : Nat → α → AsmError → Prop) (e : AsmError) : Prop :=
  ∃ i a, xs[i]? = some a ∧ P i a e ∧ ∀ j < i, ∀ b, xs[j]? = some b → ∀ e', ¬ P j b e'

/-- No line before the one at this index is read as the end. -/
def Stmt.OpenTo (ls : List Line) (i : Nat) : Prop :=
  ∀ j < i, ∀ l, ls[j]? = some l → ∀ s, read l = .ok (some s) → s.isEnd = false

/-- What is done with a source: its lines become tokens, the origin is found, the lines behind it
become statements, these get their addresses up to the end, which has to be there, and then their
words. -/
inductive Phase where
  | lexing
  | origin
  | parsing
  | layout
  | ending
  | words
  deriving DecidableEq, Repr

/-- When a phase has its turn. -/
def Phase.rank : Phase → Nat
  | .lexing => 0
  | .origin => 1
  | .parsing => 2
  | .layout => 3
  | .ending => 4
  | .words => 5

/-- A phase that comes to a line with this number finds an error there. What it works on is what the
phases before have made of the whole source. -/
inductive Fails (source : String) : Phase → Nat → AsmError → Prop
  | lexing {k : Nat} {text : List Char} {e : AsmError}
      (ht : (Text.lines source.toList)[k]? = some text) (h : Line.read (k + 1) text = .error e) :
      Fails source .lexing (k + 1) e
  | empty {ls : List Line} (hls : Line.readAll source = .ok ls)
      (hblank : ls.dropWhile Line.isEmpty = []) :
      Fails source .origin 1 (.ofLine 1 .emptyProgram)
  | origin {ls below : List Line} {header : Line} {cause : Cause}
      (hls : Line.readAll source = .ok ls) (hheader : ls.dropWhile Line.isEmpty = header :: below)
      (h : Origin.operands header.tokens >>= Origin.address = .error cause) :
      Fails source .origin header.number (.ofLine header.number cause)
  | parsing {ls below : List Line} {header l : Line} {orig : Word} {i : Nat} {e : AsmError}
      (hls : Line.readAll source = .ok ls) (hheader : ls.dropWhile Line.isEmpty = header :: below)
      (ho : Origin.operands header.tokens >>= Origin.address = .ok orig)
      (hl : below[i]? = some l) (hopen : Stmt.OpenTo below i) (h : Stmt.read l = .error e) :
      Fails source .parsing l.number e
  | layout {p : Program} {i : Nat} {s : Stmt} {e : AsmError} (hp : Program.read source = .ok p)
      (hs : Stmt.Counts p.stmts i s) (h : Layout.Breach p.orig.toNat p.stmts i s e) :
      Fails source .layout s.line e
  | ending {p : Program} (hp : Program.read source = .ok p)
      (hopen : ∀ s ∈ p.stmts, s.isEnd = false) :
      Fails source .ending (Layout.lastLine p.stmts)
        (.ofLine (Layout.lastLine p.stmts) .missingEnd)
  | words {p : Program} {layout : Layout} {i : Nat} {s : Stmt} {e : AsmError}
      (hp : Program.read source = .ok p) (hl : Layout.ofStmts p.orig p.stmts = .ok layout)
      (hs : (Stmt.body p.stmts)[i]? = some s)
      (h : s.words layout.labels (p.orig.toNat + Stmt.offset p.stmts i) = .error e) :
      Fails source .words s.line e

/-- A phase fails with this error, and on no line before. -/
def FirstIn (source : String) (φ : Phase) (e : AsmError) : Prop :=
  ∃ n, Fails source φ n e ∧ ∀ m < n, ∀ e', ¬ Fails source φ m e'

/-- No phase before this one fails on any line. -/
def ClearBefore (source : String) (φ : Phase) : Prop :=
  ∀ ψ : Phase, ψ.rank < φ.rank → ∀ n e, ¬ Fails source ψ n e

variable {α : Type} {xs : List α} {a : α} {P : Nat → α → AsmError → Prop} {source : String}
  {texts : List (List Char)} {k m n addr : Nat} {e e' : AsmError} {l : Line} {ls : List Line}
  {s : Stmt} {stmts : List Stmt} {labels : LabelTable} {φ ψ : Phase} {origin : Origin} {p : Program}
  {layout : Layout}

/-! ## Going through a list -/

theorem not_firstAt_nil : ¬ FirstAt [] P e := by simp [FirstAt]

theorem firstAt_cons : FirstAt (a :: xs) P e ↔
    P 0 a e ∨ (∀ e', ¬ P 0 a e') ∧ FirstAt xs (fun i => P (i + 1)) e := by
  constructor
  · rintro ⟨_ | i, b, hb, h, hbefore⟩
    · cases hb
      exact .inl h
    · exact .inr ⟨hbefore 0 (Nat.succ_pos i) a rfl,
        i, b, hb, h, fun j hj => hbefore (j + 1) (Nat.succ_lt_succ hj)⟩
  · rintro (h | ⟨hhead, i, b, hb, h, hbefore⟩)
    · exact ⟨0, a, rfl, h, nofun⟩
    · refine ⟨i + 1, b, hb, h, ?_⟩
      rintro (_ | j) hj c hc
      · cases hc
        exact hhead
      · exact hbefore j (Nat.lt_of_succ_lt_succ hj) c hc

/-! ## What stops the parts of the assembler -/

theorem Line.readFrom_eq_error_iff : readFrom n texts = .error e ↔
    FirstAt texts (fun k text e => read (n + k) text = .error e) e := by
  induction texts generalizing n with
  | nil => simp [readFrom, not_firstAt_nil]
  | cons text texts ih =>
      have hnext : (fun k text e => read (n + (k + 1)) text = .error e) =
          fun k text (e : AsmError) => read (n + 1 + k) text = .error e := by
        funext k
        rw [Nat.add_assoc, Nat.add_comm 1]
      rw [firstAt_cons, hnext, ← ih, readFrom, bind_eq_error, Nat.add_zero]
      refine or_congr_right ?_
      cases read n text with
      | error e' => simp
      | ok l => simp [map_eq_error]

namespace Stmt

theorem openTo_zero : OpenTo ls 0 := nofun

theorem openTo_succ {i : Nat} : OpenTo (l :: ls) (i + 1) ↔
    (∀ s, read l = .ok (some s) → s.isEnd = false) ∧ OpenTo ls i := by
  constructor
  · exact fun h => ⟨h 0 (Nat.succ_pos i) l rfl, fun j hj => h (j + 1) (Nat.succ_lt_succ hj)⟩
  · rintro ⟨hl, h⟩ (_ | j) hj m hm
    · cases hm
      exact hl
    · exact h j (Nat.lt_of_succ_lt_succ hj) m hm

theorem readAll_eq_error_iff : readAll ls = .error e ↔
    FirstAt ls (fun i l e => OpenTo ls i ∧ read l = .error e) e := by
  induction ls with
  | nil => simp [readAll, not_firstAt_nil]
  | cons l ls ih =>
      simp only [firstAt_cons, openTo_zero, openTo_succ, true_and]
      cases hl : read l with
      | error e' => simp [readAll, hl, Bind.bind, Except.bind]
      | ok s? =>
          cases s? with
          | none => simp [readAll, hl, Bind.bind, Except.bind, ih]
          | some s =>
              cases he : s.isEnd with
              | true => simp [readAll, hl, he, Bind.bind, Except.bind, pure_ne_error, FirstAt]
              | false => simp [readAll, hl, he, bind_eq_error, map_eq_error, ih]

theorem allWords_eq_error_iff : allWords labels addr stmts = .error e ↔
    FirstAt (body stmts) (fun i s e => s.words labels (addr + offset stmts i) = .error e) e := by
  induction stmts generalizing addr with
  | nil => simp [allWords, not_firstAt_nil]
  | cons s stmts ih =>
      cases he : s.isEnd with
      | true => simp [allWords, he, body_cons_of_isEnd he, not_firstAt_nil]
      | false =>
          simp only [body_cons he, firstAt_cons, offset_zero, Nat.add_zero, offset_succ,
            ← Nat.add_assoc, allWords, he]
          cases hw : s.words labels addr with
          | error e' => simp [Bind.bind, Except.bind]
          | ok ws =>
              have hlen := length_of_words hw
              simp [bind_eq_error, map_eq_error, hlen, ih]

end Stmt

theorem Layout.firstBreach_iff_firstAt {orig : Nat} : FirstBreach orig stmts e ↔
    FirstAt stmts (fun i s e => i ≤ (Stmt.body stmts).length ∧ Breach orig stmts i s e) e := by
  constructor
  · rintro ⟨i, s, hs, h, hbefore⟩
    refine ⟨i, s, hs.2, ⟨hs.1, h⟩, fun j hj t ht e' h' => ?_⟩
    exact fits_iff.1 (hbefore j hj t ⟨h'.1, ht⟩) e' h'.2
  · rintro ⟨i, s, hs, ⟨hi, h⟩, hbefore⟩
    refine ⟨i, s, ⟨hi, hs⟩, h, fun j hj t ht => fits_iff.2 fun e' h' => ?_⟩
    exact hbefore j hj t ht.2 e' ⟨ht.1, h'⟩

namespace Origin

theorem findFrom_eq_error_iff : findFrom n ls = .error e ↔
    ls.dropWhile Line.isEmpty = [] ∧ e = .ofLine 1 .emptyProgram ∨
      ∃ header below cause, ls.dropWhile Line.isEmpty = header :: below ∧
        operands header.tokens >>= address = .error cause ∧ e = .ofLine header.number cause := by
  induction ls generalizing n with
  | nil => simp [findFrom, eq_comm]
  | cons l ls ih =>
      cases hl : l.isEmpty with
      | true => simp [findFrom, hl, ih]
      | false =>
          simp only [findFrom, hl, List.dropWhile_cons]
          cases h : operands l.tokens >>= address <;> simp [h, eq_comm]

theorem below_of_findFrom (h : findFrom n ls = .ok origin) :
    ∃ header below, ls.dropWhile Line.isEmpty = header :: below ∧
      operands header.tokens >>= address = .ok origin.orig ∧ n < origin.begin ∧
        ls.drop (origin.begin - n) = below := by
  induction ls generalizing n with
  | nil => cases h
  | cons l ls ih =>
      cases hl : l.isEmpty with
      | true =>
          simp only [findFrom, hl, ↓reduceIte] at h
          obtain ⟨header, below, hheader, ho, hlt, hdrop⟩ := ih h
          have hbegin : origin.begin - n = origin.begin - (n + 1) + 1 := by omega
          refine ⟨header, below, by simpa [hl] using hheader, ho, by omega, ?_⟩
          rw [hbegin, List.drop_succ_cons, hdrop]
      | false =>
          simp only [findFrom, hl, Bool.false_eq_true, ↓reduceIte] at h
          split at h
          · rename_i orig ho
            cases h
            exact ⟨l, ls, by simp [hl], ho, Nat.lt_succ_self n, by simp⟩
          · cases h

/-- The lines behind the origin are those behind the first that is not blank. -/
theorem below_of_find (h : find ls = .ok origin) :
    ∃ header, ls.dropWhile Line.isEmpty = header :: ls.drop origin.begin ∧
      operands header.tokens >>= address = .ok origin.orig := by
  obtain ⟨header, _, hheader, ho, -, rfl⟩ := below_of_findFrom h
  exact ⟨header, hheader, ho⟩

theorem exists_find {header : Line} {below : List Line} {orig : Word}
    (hheader : ls.dropWhile Line.isEmpty = header :: below)
    (ho : operands header.tokens >>= address = .ok orig) : ∃ origin, find ls = .ok origin := by
  cases hfind : find ls with
  | ok origin => exact ⟨origin, rfl⟩
  | error e =>
      obtain ⟨hblank, -⟩ | ⟨_, _, cause, hheader', h, -⟩ := findFrom_eq_error_iff.1 hfind
      · cases hheader.symm.trans hblank
      · cases hheader.symm.trans hheader'
        cases ho.symm.trans h

end Origin

/-! ## From lists to lines -/

/-- Where a phase goes through a list in which line numbers increase, its first error is that of the
first element. -/
theorem firstIn_iff_firstAt (num : Nat → α → Nat)
    (hnum : ∀ i j a b, i < j → xs[i]? = some a → xs[j]? = some b → num i a < num j b)
    (hfails : ∀ n e, Fails source φ n e ↔ ∃ i a, xs[i]? = some a ∧ n = num i a ∧ P i a e) :
    FirstIn source φ e ↔ FirstAt xs P e := by
  constructor
  · rintro ⟨n, hn, hbefore⟩
    obtain ⟨i, a, ha, rfl, h⟩ := (hfails n e).1 hn
    refine ⟨i, a, ha, h, fun j hj b hb e' h' => ?_⟩
    exact hbefore _ (hnum j i b a hj hb ha) e' ((hfails _ e').2 ⟨j, b, hb, rfl, h'⟩)
  · rintro ⟨i, a, ha, h, hbefore⟩
    refine ⟨num i a, (hfails _ e).2 ⟨i, a, ha, rfl, h⟩, fun m hm e' hf => ?_⟩
    obtain ⟨j, b, hb, rfl, h'⟩ := (hfails m e').1 hf
    rcases Nat.lt_trichotomy j i with hj | rfl | hj
    · exact hbefore j hj b hb e' h'
    · cases ha.symm.trans hb
      exact absurd hm (Nat.lt_irrefl _)
    · exact absurd (hnum i j a b hj ha hb) (Nat.not_lt_of_lt hm)

/-- A phase that fails on one line at most. -/
theorem firstIn_iff_fails
    (h : ∀ n m e e', Fails source φ n e → Fails source φ m e' → n = m) :
    FirstIn source φ e ↔ ∃ n, Fails source φ n e := by
  refine ⟨fun ⟨n, hn, _⟩ => ⟨n, hn⟩, fun ⟨n, hn⟩ => ⟨n, hn, fun m hm e' hm' => ?_⟩⟩
  exact absurd (h m n e' e hm' hn) (Nat.ne_of_lt hm)

/-- A phase that fails has a first line on which it does. -/
theorem exists_firstIn (h : Fails source φ n e) : ∃ e', FirstIn source φ e' := by
  induction n using Nat.strongRecOn generalizing e with
  | ind n ih =>
      by_cases hbefore : ∃ m < n, ∃ e', Fails source φ m e'
      · obtain ⟨m, hm, e', h'⟩ := hbefore
        exact ih m hm h'
      · exact ⟨e, n, h, fun m hm e' h' => hbefore ⟨m, hm, e', h'⟩⟩

theorem lt_of_pairwise {num : α → Nat} (h : xs.Pairwise fun a b => num a < num b) (i j : Nat)
    (a b : α) (hij : i < j) (ha : xs[i]? = some a) (hb : xs[j]? = some b) : num a < num b := by
  obtain ⟨hi, rfl⟩ := List.getElem?_eq_some_iff.1 ha
  obtain ⟨hj, rfl⟩ := List.getElem?_eq_some_iff.1 hb
  exact List.pairwise_iff_getElem.1 h i j hi hj hij

/-! ## The phases -/

theorem firstIn_lexing : FirstIn source .lexing e ↔ Line.readAll source = .error e := by
  have hnumber (k : Nat) : 1 + k = k + 1 := Nat.add_comm 1 k
  rw [Line.readAll, Line.readFrom_eq_error_iff]
  simp only [hnumber]
  refine firstIn_iff_firstAt (fun k _ => k + 1) ?_ fun n e => ⟨?_, ?_⟩
  · exact fun i j _ _ hij _ _ => Nat.succ_lt_succ hij
  · intro hfails
    cases hfails with
    | lexing ht h => exact ⟨_, _, ht, rfl, h⟩
  · rintro ⟨k, text, ht, rfl, h⟩
    exact .lexing ht h

theorem fails_origin_iff (hls : Line.readAll source = .ok ls) : Fails source .origin n e ↔
    Origin.find ls = .error e ∧ n = e.place.line := by
  rw [Origin.find, Origin.findFrom_eq_error_iff]
  constructor
  · intro hfails
    cases hfails with
    | empty hls' hblank =>
        cases hls.symm.trans hls'
        exact ⟨.inl ⟨hblank, rfl⟩, rfl⟩
    | origin hls' hheader h =>
        cases hls.symm.trans hls'
        exact ⟨.inr ⟨_, _, _, hheader, h, rfl⟩, rfl⟩
  · rintro ⟨⟨hblank, rfl⟩ | ⟨header, below, cause, hheader, h, rfl⟩, rfl⟩
    · exact .empty hls hblank
    · exact .origin hls hheader h

theorem firstIn_origin (hls : Line.readAll source = .ok ls) :
    FirstIn source .origin e ↔ Origin.find ls = .error e := by
  rw [firstIn_iff_fails]
  · simp [fails_origin_iff hls]
  · intro n m e e' h h'
    rw [fails_origin_iff hls] at h h'
    cases h.1.symm.trans h'.1
    rw [h.2, h'.2]

theorem firstIn_parsing (hls : Line.readAll source = .ok ls) (ho : Origin.find ls = .ok origin) :
    FirstIn source .parsing e ↔ Stmt.readAll (ls.drop origin.begin) = .error e := by
  have hincreasing : (ls.drop origin.begin).Pairwise fun l m => l.number < m.number :=
    (Line.increasing_of_readAll hls).sublist (List.drop_sublist _ _)
  obtain ⟨header, hheader, horig⟩ := Origin.below_of_find ho
  rw [Stmt.readAll_eq_error_iff]
  refine firstIn_iff_firstAt (fun _ l => l.number) (lt_of_pairwise hincreasing)
    fun n e => ⟨?_, ?_⟩
  · intro hfails
    cases hfails with
    | parsing hls' hheader' _ hl hopen h =>
        cases hls.symm.trans hls'
        cases hheader.symm.trans hheader'
        exact ⟨_, _, hl, rfl, hopen, h⟩
  · rintro ⟨i, l, hl, rfl, hopen, h⟩
    exact .parsing hls hheader horig hl hopen h

theorem firstIn_layout (hp : Program.read source = .ok p) :
    FirstIn source .layout e ↔ Layout.walk .empty p.orig.toNat p.stmts = .error e := by
  rw [Layout.walk_eq_error_iff, Layout.firstBreach_iff_firstAt]
  refine firstIn_iff_firstAt (fun _ s => s.line)
    (lt_of_pairwise (Program.increasing_of_read hp)) fun n e => ⟨?_, ?_⟩
  · intro hfails
    cases hfails with
    | layout hp' hs h =>
        cases hp.symm.trans hp'
        exact ⟨_, _, hs.2, rfl, hs.1, h⟩
  · rintro ⟨i, s, hs, rfl, hi, h⟩
    exact .layout hp ⟨hi, hs⟩ h

theorem fails_ending_iff (hp : Program.read source = .ok p) : Fails source .ending n e ↔
    ((∀ s ∈ p.stmts, s.isEnd = false) ∧ e = .ofLine (Layout.lastLine p.stmts) .missingEnd) ∧
      n = e.place.line := by
  constructor
  · intro hfails
    cases hfails with
    | ending hp' hopen =>
        cases hp.symm.trans hp'
        exact ⟨⟨hopen, rfl⟩, rfl⟩
  · rintro ⟨⟨hopen, rfl⟩, rfl⟩
    exact .ending hp hopen

theorem firstIn_ending (hp : Program.read source = .ok p) : FirstIn source .ending e ↔
    (∀ s ∈ p.stmts, s.isEnd = false) ∧ e = .ofLine (Layout.lastLine p.stmts) .missingEnd := by
  rw [firstIn_iff_fails]
  · simp [fails_ending_iff hp]
  · intro n m e e' h h'
    rw [fails_ending_iff hp] at h h'
    rw [h.2, h'.2, h.1.2, h'.1.2]

theorem firstIn_words (hp : Program.read source = .ok p)
    (hl : Layout.ofStmts p.orig p.stmts = .ok layout) : FirstIn source .words e ↔
      Stmt.allWords layout.labels p.orig.toNat p.stmts = .error e := by
  have hincreasing : (Stmt.body p.stmts).Pairwise fun s t => s.line < t.line :=
    (Program.increasing_of_read hp).sublist (List.takeWhile_sublist _)
  rw [Stmt.allWords_eq_error_iff]
  refine firstIn_iff_firstAt (fun _ s => s.line) (lt_of_pairwise hincreasing)
    fun n e => ⟨?_, ?_⟩
  · intro hfails
    cases hfails with
    | words hp' hl' hs h =>
        cases hp.symm.trans hp'
        cases hl.symm.trans hl'
        exact ⟨_, _, hs, rfl, h⟩
  · rintro ⟨i, s, hs, rfl, h⟩
    exact .words hp hl hs h

/-! ## The order of the phases -/

theorem not_fails_of_ok {x : Except AsmError α} (h : ∀ e, FirstIn source φ e ↔ x = .error e)
    (hx : x = .ok a) : ¬ Fails source φ n e := by
  intro hfails
  obtain ⟨e', hfirst⟩ := exists_firstIn hfails
  cases hx.symm.trans ((h e').1 hfirst)

theorem Phase.rank_injective (h : φ.rank = ψ.rank) : φ = ψ := by
  revert h
  cases φ <;> cases ψ <;> decide

theorem ClearBefore.next (h : ClearBefore source φ) (hφ : ∀ n e, ¬ Fails source φ n e)
    (hrank : ψ.rank = φ.rank + 1) : ClearBefore source ψ := by
  intro χ hχ
  rw [hrank] at hχ
  rcases Nat.lt_succ_iff_lt_or_eq.1 hχ with hlt | heq
  · exact h χ hlt
  · obtain rfl := Phase.rank_injective heq
    exact hφ

/-- If phases fail, one of them is the first. -/
theorem exists_first (h : Fails source φ n e) :
    ∃ ψ e', FirstIn source ψ e' ∧ ClearBefore source ψ := by
  induction hk : φ.rank using Nat.strongRecOn generalizing φ n e with
  | ind k ih =>
      by_cases hbefore : ClearBefore source φ
      · obtain ⟨e', hfirst⟩ := exists_firstIn h
        exact ⟨φ, e', hfirst, hbefore⟩
      · simp only [ClearBefore, not_forall, not_not] at hbefore
        obtain ⟨ψ, hlt, m, e', hfails⟩ := hbefore
        exact ih ψ.rank (hk ▸ hlt) hfails rfl

theorem clearBefore_lexing : ClearBefore source .lexing := nofun

theorem clearBefore_origin (hls : Line.readAll source = .ok ls) : ClearBefore source .origin :=
  clearBefore_lexing.next (fun _ _ => not_fails_of_ok (fun _ => firstIn_lexing) hls) rfl

theorem clearBefore_parsing (hls : Line.readAll source = .ok ls)
    (ho : Origin.find ls = .ok origin) : ClearBefore source .parsing :=
  (clearBefore_origin hls).next (fun _ _ => not_fails_of_ok (fun _ => firstIn_origin hls) ho) rfl

theorem clearBefore_layout (hp : Program.read source = .ok p) : ClearBefore source .layout := by
  obtain ⟨ls, origin, hls, ho, hstmts, -⟩ := Program.read_eq_ok.1 hp
  exact (clearBefore_parsing hls ho).next
    (fun _ _ => not_fails_of_ok (fun _ => firstIn_parsing hls ho) hstmts) rfl

theorem clearBefore_ending {r : Option (LabelTable × Nat)} (hp : Program.read source = .ok p)
    (hr : Layout.walk .empty p.orig.toNat p.stmts = .ok r) : ClearBefore source .ending :=
  (clearBefore_layout hp).next (fun _ _ => not_fails_of_ok (fun _ => firstIn_layout hp) hr) rfl

theorem clearBefore_words (hp : Program.read source = .ok p)
    (hl : Layout.ofStmts p.orig p.stmts = .ok layout) : ClearBefore source .words := by
  obtain ⟨r, hr⟩ := Layout.exists_ofStmts.1 ⟨layout, hl⟩
  refine (clearBefore_ending hp hr).next (fun n e hfails => ?_) rfl
  obtain ⟨s, hs, hend⟩ := (Layout.isSome_walk hr).1 rfl
  cases (((fails_ending_iff hp).1 hfails).1.1 s hs).symm.trans hend

/-! ## Where the errors are -/

theorem Layout.Breach.place {orig i : Nat} (h : Breach orig stmts i s e) :
    e.place.line = s.line ∧
      (e.place.cols = .whole ∨ ∃ label, s.label = some label ∧ e.place.cols = label.cols) := by
  cases h with
  | memory | stop => exact ⟨rfl, .inl rfl⟩
  | name hl | addr hl => exact ⟨rfl, .inr ⟨_, hl, rfl⟩⟩

theorem Stmt.words_eq_error (h : s.words labels addr = .error e) :
    ∃ cause, e = .ofLine s.line cause := by
  unfold words at h
  split at h
  · cases h
  · rename_i c _
    cases hc : c.words labels addr with
    | error cause =>
        rw [hc] at h
        cases h
        exact ⟨cause, rfl⟩
    | ok ws =>
        rw [hc] at h
        cases h

/-- An error is on the line on which its phase fails, and in columns of that line. -/
theorem Fails.place (h : Fails source φ n e) :
    e.place.line = n ∧ e.place.Within (Text.lines source.toList) := by
  cases h with
  | lexing ht h =>
      have hf := Text.not_mem_of_mem_lines (List.mem_of_getElem? ht)
      obtain ⟨hline, hcols⟩ := Line.place_of_read hf h
      exact ⟨hline, .of_line ht hline (.inr hcols)⟩
  | empty => exact ⟨rfl, Place.within_one⟩
  | @origin ls _ header _ hls hheader =>
      have hmem : header ∈ ls.dropWhile Line.isEmpty := hheader ▸ .head _
      obtain ⟨k, hk⟩ := List.getElem?_of_mem ((List.dropWhile_sublist _).subset hmem)
      obtain ⟨text, ht, -⟩ := Line.text_of_readAll hls hk
      exact ⟨rfl, .of_line ht (Line.number_of_readAll hls hk) (.inl rfl)⟩
  | @parsing ls _ _ l _ _ _ hls hheader _ hl _ h =>
      have hmem : l ∈ ls.dropWhile Line.isEmpty := hheader ▸ .tail _ (List.mem_of_getElem? hl)
      obtain ⟨k, hk⟩ := List.getElem?_of_mem ((List.dropWhile_sublist _).subset hmem)
      obtain ⟨text, ht, hread⟩ := Line.text_of_readAll hls hk
      obtain ⟨hline, hcols⟩ := Stmt.place_of_read h
      refine ⟨hline, .of_line ht (hline.trans (Line.number_of_readAll hls hk)) ?_⟩
      refine hcols.imp_right fun ⟨p, hp, hspan⟩ => ?_
      rw [hspan]
      exact Line.isPartOf_of_read hread hp
  | layout hp hs h =>
      obtain ⟨hline, hcols⟩ := h.place
      exact ⟨hline, .of_stmt hp (List.mem_of_getElem? hs.2) hline hcols⟩
  | @ending p hp =>
      refine ⟨rfl, ?_⟩
      unfold Layout.lastLine
      split
      · rename_i s hs
        exact .of_stmt hp (List.mem_of_getLast? hs) rfl (.inl rfl)
      · exact Place.within_one
  | words hp _ hs h =>
      obtain ⟨cause, rfl⟩ := Stmt.words_eq_error h
      have hmem := (List.takeWhile_sublist _).subset (List.mem_of_getElem? hs)
      exact ⟨rfl, .of_stmt hp hmem rfl (.inl rfl)⟩

/-! ## Main statement -/

theorem Program.read_eq_error : read source = .error e ↔
    Line.readAll source = .error e ∨ ∃ ls, Line.readAll source = .ok ls ∧
      (Origin.find ls = .error e ∨ ∃ origin, Origin.find ls = .ok origin ∧
        Stmt.readAll (ls.drop origin.begin) = .error e) := by
  simp only [read, bind_eq_error, pure_ne_error, and_false, exists_false, or_false]

namespace ObjectFile

theorem assemble_eq_error : assemble source = .error e ↔
    Program.read source = .error e ∨ ∃ p, Program.read source = .ok p ∧
      (Layout.ofStmts p.orig p.stmts = .error e ∨
        ∃ layout, Layout.ofStmts p.orig p.stmts = .ok layout ∧
          Stmt.allWords layout.labels p.orig.toNat p.stmts = .error e) := by
  simp only [assemble, ofProgram, ofStmts, bind_eq_error, pure_ne_error, and_false, exists_false,
    or_false]

theorem exists_firstIn_of_assemble (h : assemble source = .error e) :
    ∃ φ, FirstIn source φ e ∧ ClearBefore source φ := by
  rcases assemble_eq_error.1 h with hread | ⟨p, hp, hlayout | ⟨layout, hl, hwords⟩⟩
  · rcases Program.read_eq_error.1 hread with hls | ⟨ls, hls, ho | ⟨origin, ho, hstmts⟩⟩
    · exact ⟨.lexing, firstIn_lexing.2 hls, clearBefore_lexing⟩
    · exact ⟨.origin, (firstIn_origin hls).2 ho, clearBefore_origin hls⟩
    · exact ⟨.parsing, (firstIn_parsing hls ho).2 hstmts, clearBefore_parsing hls ho⟩
  · rcases Layout.ofStmts_eq_error.1 hlayout with hwalk | ⟨hwalk, rfl⟩
    · exact ⟨.layout, (firstIn_layout hp).2 hwalk, clearBefore_layout hp⟩
    · refine ⟨.ending, (firstIn_ending hp).2 ⟨fun s hs => ?_, rfl⟩, clearBefore_ending hp hwalk⟩
      by_contra hend
      cases (Layout.isSome_walk hwalk).2 ⟨s, hs, by simpa using hend⟩
  · exact ⟨.words, (firstIn_words hp hl).2 hwords, clearBefore_words hp hl⟩

theorem assemble_of_firstIn (h : FirstIn source φ e) (hbefore : ClearBefore source φ) :
    assemble source = .error e := by
  obtain ⟨n, hn, -⟩ := id h
  rw [assemble_eq_error]
  cases hn with
  | lexing => exact .inl (Program.read_eq_error.2 (.inl (firstIn_lexing.1 h)))
  | empty hls | origin hls =>
      have ho := (firstIn_origin hls).1 h
      exact .inl (Program.read_eq_error.2 (.inr ⟨_, hls, .inl ho⟩))
  | parsing hls hheader horig =>
      obtain ⟨origin, ho⟩ := Origin.exists_find hheader horig
      have hstmts := (firstIn_parsing hls ho).1 h
      exact .inl (Program.read_eq_error.2 (.inr ⟨_, hls, .inr ⟨_, ho, hstmts⟩⟩))
  | layout hp =>
      have hwalk := (firstIn_layout hp).1 h
      exact .inr ⟨_, hp, .inl (Layout.ofStmts_eq_error.2 (.inl hwalk))⟩
  | @ending p hp hopen =>
      refine .inr ⟨_, hp, .inl (Layout.ofStmts_eq_error.2 (.inr ⟨?_, rfl⟩))⟩
      cases hwalk : Layout.walk .empty p.orig.toNat p.stmts with
      | error e' =>
          obtain ⟨m, hm, -⟩ := (firstIn_layout hp).2 hwalk
          exact absurd hm (hbefore .layout (by decide) m e')
      | ok r =>
          cases r with
          | none => rfl
          | some =>
              obtain ⟨s, hs, hend⟩ := (Layout.isSome_walk hwalk).1 rfl
              cases (hopen s hs).symm.trans hend
  | words hp hl => exact .inr ⟨_, hp, .inr ⟨_, hl, (firstIn_words hp hl).1 h⟩⟩

/-- A source has an error exactly if a phase fails that no failing phase goes before, and the error
is that of the first line on which it does. The place of the error is a place in the source. If no
phase fails on any line, and only then, the source is assembled. -/
theorem assemble_first_error (source : String) (e : AsmError) :
    (assemble source = .error e ↔ ∃ φ, Fails source φ e.place.line e ∧ ClearBefore source φ ∧
      ∀ n < e.place.line, ∀ e', ¬ Fails source φ n e') ∧
    (assemble source = .error e → e.place.Within (Text.lines source.toList)) ∧
    ((∃ o, assemble source = .ok o) ↔ ∀ φ n e, ¬ Fails source φ n e) := by
  refine ⟨⟨fun h => ?_, ?_⟩, fun h => ?_, ?_, fun h => ?_⟩
  · obtain ⟨φ, ⟨n, hn, hlines⟩, hbefore⟩ := exists_firstIn_of_assemble h
    obtain ⟨rfl, -⟩ := hn.place
    exact ⟨φ, hn, hbefore, hlines⟩
  · rintro ⟨φ, hfails, hbefore, hlines⟩
    exact assemble_of_firstIn ⟨_, hfails, hlines⟩ hbefore
  · obtain ⟨φ, ⟨n, hn, -⟩, -⟩ := exists_firstIn_of_assemble h
    exact hn.place.2
  · rintro ⟨o, ho⟩ φ n e hfails
    obtain ⟨ψ, e', hfirst, hbefore⟩ := exists_first hfails
    cases ho.symm.trans (assemble_of_firstIn hfirst hbefore)
  · cases ho : assemble source with
    | ok o => exact ⟨o, rfl⟩
    | error e' =>
        obtain ⟨φ, ⟨n, hn, -⟩, -⟩ := exists_firstIn_of_assemble ho
        exact absurd hn (h φ n e')

/-- A label that is there twice, after an undefined one and before the missing end; and a string
that is not closed, behind the end of a program without an origin. -/
theorem assemble_first_error_twice :
    let source := ".ORIG x3000\nA LD R0, B\nA HALT"
    let behind := "HALT\n.END\n \"é"
    let twice : AsmError := ⟨.duplicateLabel "A" 0x3000, 3, ⟨0, 1⟩⟩
    let unclosed : AsmError := ⟨.lex .unclosedString, 3, ⟨1, 4⟩⟩
    assemble source = .error twice ∧ twice.place.Within (Text.lines source.toList) ∧
      (∃ φ, Fails source φ 3 twice ∧ ClearBefore source φ) ∧
      assemble behind = .error unclosed ∧ unclosed.place.Within (Text.lines behind.toList) ∧
        ∃ φ, Fails behind φ 3 unclosed ∧ ClearBefore behind φ := by
  intro source behind twice unclosed
  have htwice : assemble source = .error twice := by decide
  have hunclosed : assemble behind = .error unclosed := by decide
  obtain ⟨hfirst, hplace, -⟩ := assemble_first_error source twice
  obtain ⟨hfirst', hplace', -⟩ := assemble_first_error behind unclosed
  obtain ⟨φ, hfails, hbefore, -⟩ := hfirst.1 htwice
  obtain ⟨φ', hfails', hbefore', -⟩ := hfirst'.1 hunclosed
  exact ⟨htwice, hplace htwice, ⟨φ, hfails, hbefore⟩, hunclosed, hplace' hunclosed,
    φ', hfails', hbefore'⟩

end ObjectFile

end Lc3
