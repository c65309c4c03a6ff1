import Lc3.Proofs.Splitting

/-!
# Places in a line

Outside of strings and comments a line can be cut wherever no run is cut in two. Main statement: the
two parts of such a cut are split independently of each other, so spaces and comments can be changed
without changing a token.
-/

/-- Two ways to cut a list in two: one cut is behind the other. -/
theorem List.append_eq_append_cases {α : Type} {a b c d : List α} (h : a ++ b = c ++ d) :
    (∃ m, c = a ++ m ∧ b = m ++ d) ∨ ∃ m, m ≠ [] ∧ a = c ++ m ∧ d = m ++ b := by
  rcases List.append_eq_append_iff.1 h with ⟨m, hc, hb⟩ | ⟨m, ha, hd⟩
  · exact .inl ⟨m, hc, hb⟩
  · by_cases hm : m = []
    · subst hm
      exact .inl ⟨[], by simpa using ha.symm, by simpa using hd.symm⟩
    · exact .inr ⟨m, hm, ha, hd⟩

namespace Lc3

open Token

/-- What a place in a line is inside of. -/
inductive Context where
  | code
  | comment
  | string
  /-- Inside of a string, right behind a backslash. -/
  | escape
  deriving DecidableEq, Repr

/-- The context behind a character. -/
def Context.next : Context → Char → Context
  | .code, c => if c = ';' then .comment else if c = '"' then .string else .code
  | .comment, _ => .comment
  | .string, c => if c = '"' then .code else if c = '\\' then .escape else .string
  | .escape, _ => .string

/-- The context behind a text that stands inside of another one. -/
def Context.after (x : Context) (cs : List Char) : Context := cs.foldl Context.next x

/-- The place behind a text at the start of a line is outside of strings and comments. -/
def Outside (before : List Char) : Prop := Context.code.after before = .code

instance : DecidablePred Outside := fun before =>
  inferInstanceAs (Decidable (Context.code.after before = .code))

/-- No run goes on from one text to the other. -/
def Parted (before rest : List Char) : Prop :=
  ∀ c ∈ before.getLast?, isRunChar c = true → StopsRun rest

variable {c : Char} {x : Context} {cs ds before after rest run seps text : List Char} {t : Token}
  {us vs ws : List Spelling}

/-! ## Characters that begin no string and no comment -/

namespace Token

theorem plain_of_isSeparator (h : isSeparator c = true) : c ≠ ';' ∧ c ≠ '"' := by
  constructor <;> rintro rfl <;> exact absurd h (by decide)

theorem plain_of_isRunChar (h : isRunChar c = true) : c ≠ ';' ∧ c ≠ '"' := by
  constructor <;> rintro rfl <;> exact absurd h (by decide)

theorem plain_of_isBlank (h : Text.isBlank c = true) : c ≠ ';' ∧ c ≠ '"' := by
  constructor <;> rintro rfl <;> exact absurd h (by decide)

end Token

/-! ## Contexts -/

namespace Context

@[simp] theorem after_nil : x.after [] = x := rfl

@[simp] theorem after_cons : x.after (c :: cs) = (x.next c).after cs := rfl

@[simp] theorem after_append : x.after (cs ++ ds) = (x.after cs).after ds := List.foldl_append

@[simp] theorem after_comment : comment.after cs = .comment := by
  induction cs with
  | nil => rfl
  | cons c cs ih => exact ih

theorem next_plain (h : c ≠ ';' ∧ c ≠ '"') : code.next c = .code := by simp [next, h.1, h.2]

theorem after_plain (h : ∀ c ∈ cs, c ≠ ';' ∧ c ≠ '"') : code.after cs = .code := by
  induction cs with
  | nil => rfl
  | cons c cs ih =>
      rw [after_cons, next_plain (h c (.head _))]
      exact ih fun d hd => h d (.tail _ hd)

theorem next_of_isSeparator (h : isSeparator c = true) : code.next c = .code :=
  next_plain (plain_of_isSeparator h)

theorem after_of_isRunChar (h : ∀ c ∈ cs, isRunChar c = true) : code.after cs = .code :=
  after_plain fun c hc => plain_of_isRunChar (h c hc)

theorem after_escaped (h : Escaped cs ds) : string.after cs = .string := by
  induction h with
  | nil => rfl
  | plain hc _ ih => simpa [next, hc.1, hc.2.1] using ih
  | escape _ _ ih => simpa [next] using ih

@[simp] theorem after_inQuotes (h : Escaped cs ds) : code.after (inQuotes cs) = .code := by
  rw [inQuotes, List.cons_append, after_cons, after_append, show code.next '"' = .string from rfl,
    after_escaped h]
  rfl

/-- A string that has begun and not ended is not left. -/
theorem after_ne_code (h : Escaped cs ds) {a b : List Char} (hcut : cs ++ ['"'] = a ++ b)
    (hb : b ≠ []) : string.after a ≠ .code := by
  induction h generalizing a with
  | nil =>
      cases a with
      | nil => exact nofun
      | cons d a =>
          obtain ⟨-, hnil⟩ := List.cons_eq_cons.1 hcut
          exact absurd (List.append_eq_nil_iff.1 hnil.symm).2 hb
  | @plain c cs ds hc _ ih =>
      cases a with
      | nil => exact nofun
      | cons d a =>
          obtain ⟨rfl, hrest⟩ := List.cons_eq_cons.1 hcut
          simpa [next, hc.1, hc.2.1] using ih hrest
  | escape _ _ ih =>
      obtain _ | ⟨d, _ | ⟨e, a⟩⟩ := a
      · exact nofun
      · obtain ⟨rfl, -⟩ := List.cons_eq_cons.1 hcut
        exact nofun
      · obtain ⟨rfl, hrest⟩ := List.cons_eq_cons.1 hcut
        exact ih (a := a) (List.cons_eq_cons.1 hrest).2

end Context

theorem outside_separator (h : isSeparator c = true) : Outside (c :: rest) ↔ Outside rest := by
  rw [Outside, Context.after_cons, Context.next_of_isSeparator h, Outside]

theorem outside_run (h : ∀ c ∈ run, isRunChar c = true) : Outside (run ++ rest) ↔ Outside rest := by
  rw [Outside, Context.after_append, Context.after_of_isRunChar h, Outside]

theorem outside_string (h : Escaped cs ds) : Outside (inQuotes cs ++ rest) ↔ Outside rest := by
  rw [Outside, Context.after_append, Context.after_inQuotes h, Outside]

theorem not_outside_comment : ¬ Outside (';' :: rest) := by simp [Outside, Context.next]

/-! ## Cuts -/

theorem Token.StopsRun.of_append (h : StopsRun (cs ++ ds)) : StopsRun cs := by
  cases cs with
  | nil => exact nofun
  | cons c cs => exact h

theorem parted_of_stopsRun (h : StopsRun rest) : Parted before rest := fun _ _ _ => h

theorem Parted.of_append (h : Parted (cs ++ before) rest) : Parted before rest := by
  by_cases hb : before = []
  · subst hb
    exact nofun
  · rwa [Parted, List.getLast?_append_of_ne_nil _ hb] at h

theorem Parted.of_cons (h : Parted (c :: before) rest) : Parted before rest :=
  Parted.of_append (show Parted ([c] ++ before) rest from h)

theorem Parted.stopsRun_append (h : Parted (run ++ before) rest) (hne : run ≠ [])
    (hrun : ∀ c ∈ run, isRunChar c = true) (hb : StopsRun before) : StopsRun (before ++ rest) := by
  cases before with
  | nil =>
      rw [List.append_nil] at h
      exact h _ (List.getLast?_eq_some_getLast hne) (hrun _ (List.getLast_mem hne))
  | cons c before => exact hb

theorem Splits.join (h : Splits before us) (h' : Splits rest vs) (ho : Outside before)
    (hp : Parted before rest) : Splits (before ++ rest) (us ++ vs) := by
  induction h with
  | nil => exact h'
  | separator hc _ ih => exact .separator hc (ih ((outside_separator hc).1 ho) hp.of_cons)
  | comment => exact absurd ho not_outside_comment
  | run hne hrun hstop ht _ ih =>
      rw [List.append_assoc]
      exact .run hne hrun (hp.stopsRun_append hne hrun hstop) ht
        (ih ((outside_run hrun).1 ho) hp.of_append)
  | string hs _ ih =>
      rw [List.append_assoc]
      exact .string hs (ih ((outside_string hs).1 ho) hp.of_append)

theorem Splits.cut_nil (h : Splits text ws) (htext : text = rest) :
    ∃ us vs, Splits [] us ∧ Splits rest vs ∧ ws = us ++ vs :=
  ⟨[], ws, .nil, htext ▸ h, rfl⟩

theorem Splits.cut (h : Splits text ws) (htext : text = before ++ rest) (ho : Outside before)
    (hp : Parted before rest) : ∃ us vs, Splits before us ∧ Splits rest vs ∧ ws = us ++ vs := by
  induction h generalizing before with
  | nil =>
      obtain ⟨rfl, rfl⟩ := List.append_eq_nil_iff.1 htext.symm
      exact ⟨[], [], .nil, .nil, rfl⟩
  | separator hc h ih =>
      cases before with
      | nil => exact (Splits.separator hc h).cut_nil htext
      | cons d before =>
          obtain ⟨rfl, rfl⟩ := List.cons_eq_cons.1 htext
          obtain ⟨us, vs, hu, hv, rfl⟩ := ih rfl ((outside_separator hc).1 ho) hp.of_cons
          exact ⟨us, vs, .separator hc hu, hv, rfl⟩
  | comment hf =>
      cases before with
      | nil => exact (Splits.comment hf).cut_nil htext
      | cons d before =>
          obtain ⟨rfl, -⟩ := List.cons_eq_cons.1 htext
          exact absurd ho not_outside_comment
  | run hne hrun hstop ht h ih =>
      rcases List.append_eq_append_cases htext with ⟨m, rfl, rfl⟩ | ⟨m, hm, rfl, rfl⟩
      · obtain ⟨us, vs, hu, hv, rfl⟩ := ih rfl ((outside_run hrun).1 ho) hp.of_append
        exact ⟨_, vs, .run hne hrun hstop.of_append ht hu, hv, rfl⟩
      · by_cases hb : before = []
        · subst hb
          exact (Splits.run hne hrun hstop ht h).cut_nil (by simp)
        · -- The run would go on from one part to the other.
          obtain ⟨d, m, rfl⟩ := List.exists_cons_of_ne_nil hm
          have hlast := hrun _ (List.mem_append_left _ (List.getLast_mem hb))
          have hstop := hp _ (List.getLast?_eq_some_getLast hb) hlast
          cases (hrun d (by simp)).symm.trans (hstop d rfl)
  | string hs h ih =>
      rcases List.append_eq_append_cases htext with ⟨m, rfl, rfl⟩ | ⟨m, hm, hcut, rfl⟩
      · obtain ⟨us, vs, hu, hv, rfl⟩ := ih rfl ((outside_string hs).1 ho) hp.of_append
        exact ⟨_, vs, .string hs hu, hv, rfl⟩
      · cases before with
        | nil =>
            rw [List.nil_append] at hcut
            exact (Splits.string hs h).cut_nil (by rw [hcut])
        | cons d before =>
            -- The place would be inside of the string.
            obtain ⟨rfl, hrest⟩ := List.cons_eq_cons.1 hcut
            exact absurd ho (Context.after_ne_code hs hrest hm)

/-- The tokens of a line that is cut outside of strings, comments and runs are those of its
parts. -/
theorem splits_append (ho : Outside before) (hp : Parted before rest) :
    Splits (before ++ rest) ws ↔ ∃ us vs, Splits before us ∧ Splits rest vs ∧ ws = us ++ vs := by
  constructor
  · intro h
    exact h.cut rfl ho hp
  · rintro ⟨us, vs, hu, hv, rfl⟩
    exact hu.join hv ho hp

/-! ## Spaces and comments -/

/-- Characters that separate tokens. -/
def Separators (seps : List Char) : Prop := ∀ c ∈ seps, isSeparator c = true

instance : DecidablePred Separators := fun seps =>
  decidable_of_iff (seps.all isSeparator = true) List.all_eq_true

/-- What may stand at the end of a line: nothing, or a comment. -/
inductive Remark : List Char → Prop
  | none : Remark []
  | comment (cs : List Char) : Remark (';' :: cs)

/-- A line without a token. -/
inductive Blank : List Char → Prop
  | mk {seps remark : List Char} (hs : Separators seps) (hr : Remark remark) :
      Blank (seps ++ remark)

/-- A line that is spaced in another way or has another comment. -/
inductive Respaced : List Char → List Char → Prop
  /-- Other separators between tokens. -/
  | between {before seps seps' rest : List Char} (ho : Outside before) (hne : seps ≠ [])
      (hs : Separators seps) (hne' : seps' ≠ []) (hs' : Separators seps') :
      Respaced (before ++ seps ++ rest) (before ++ seps' ++ rest)
  /-- More separators in front. -/
  | front {seps text : List Char} (hs : Separators seps) : Respaced text (seps ++ text)
  /-- More separators at the end. -/
  | back {seps text : List Char} (hs : Separators seps) : Respaced text (text ++ seps)
  /-- A comment that is added, changed or removed. -/
  | remark {before remark remark' : List Char} (ho : Outside before) (hr : Remark remark)
      (hr' : Remark remark') : Respaced (before ++ remark) (before ++ remark')

variable {remark text' : List Char}

theorem splits_separators (hs : Separators seps) : Splits (seps ++ rest) ws ↔ Splits rest ws := by
  rw [splits_iff 0 0, scan_separators hs, ← splits_iff]

theorem splits_only_separators (hs : Separators seps) : Splits seps [] := by
  have : Splits (seps ++ []) [] := (splits_separators hs).2 .nil
  rwa [List.append_nil] at this

theorem stopsRun_separators (hs : Separators seps) : StopsRun seps := fun c hc =>
  not_isRunChar_of_isSeparator (hs c (List.mem_of_head? hc))

theorem parted_separators (hs : Separators seps) (hne : seps ≠ []) :
    Parted before (seps ++ rest) := by
  obtain ⟨c, seps, rfl⟩ := List.exists_cons_of_ne_nil hne
  have hstop : StopsRun (c :: seps) := stopsRun_separators hs
  exact parted_of_stopsRun hstop

theorem Remark.stopsRun (h : Remark remark) : StopsRun remark := by
  cases h with
  | none => exact nofun
  | comment =>
      rintro _ ⟨⟩
      decide

theorem Remark.splits (h : Remark remark) (hf : '\n' ∉ remark) : Splits remark [] := by
  cases h with
  | none => exact .nil
  | comment => exact .comment fun h => hf (.tail _ h)

theorem Blank.splits (h : Blank text) (hf : '\n' ∉ text) : Splits text [] := by
  cases h with
  | mk hs hr =>
      rw [splits_separators hs]
      exact hr.splits fun h => hf (List.mem_append_right _ h)

/-- A line ends outside of strings and comments, or in a comment. -/
theorem Splits.exists_remark (h : Splits text ws) :
    ∃ before remark, text = before ++ remark ∧ Outside before ∧ Remark remark ∧
      Splits before ws := by
  induction h with
  | nil => exact ⟨[], [], rfl, rfl, .none, .nil⟩
  | @separator c rest ws hc _ ih =>
      obtain ⟨before, remark, rfl, ho, hr, h⟩ := ih
      exact ⟨c :: before, remark, rfl, (outside_separator hc).2 ho, hr, .separator hc h⟩
  | @comment rest hf => exact ⟨[], _, rfl, rfl, .comment rest, .nil⟩
  | @run run rest t ws hne hrun hstop ht _ ih =>
      obtain ⟨before, remark, rfl, ho, hr, h⟩ := ih
      exact ⟨run ++ before, remark, (List.append_assoc ..).symm, (outside_run hrun).2 ho, hr,
        .run hne hrun hstop.of_append ht h⟩
  | @string cs ds rest ws hs _ ih =>
      obtain ⟨before, remark, rfl, ho, hr, h⟩ := ih
      exact ⟨inQuotes cs ++ before, remark, (List.append_assoc ..).symm, (outside_string hs).2 ho,
        hr, .string hs h⟩

/-- A line that is spaced in another way has the same tokens. -/
theorem Respaced.splits (h : Respaced text text') (hw : Splits text ws) (hf : '\n' ∉ text)
    (hf' : '\n' ∉ text') : Splits text' ws := by
  cases h with
  | between ho hne hs hne' hs' =>
      rw [List.append_assoc] at hw ⊢
      obtain ⟨us, vs, hu, hv, rfl⟩ := (splits_append ho (parted_separators hs hne)).1 hw
      rw [splits_separators hs] at hv
      exact hu.join ((splits_separators hs').2 hv) ho (parted_separators hs' hne')
  | front hs => exact (splits_separators hs).2 hw
  | @back seps _ hs =>
      obtain ⟨before, remark, rfl, ho, hr, hb⟩ := hw.exists_remark
      rw [List.append_assoc] at hf' ⊢
      rw [← List.append_nil ws]
      cases hr with
      | none =>
          exact hb.join (splits_only_separators hs) ho
            (parted_of_stopsRun (stopsRun_separators hs))
      | comment cs =>
          have hr := Remark.comment (cs ++ seps)
          exact hb.join (hr.splits fun h => hf' (List.mem_append_right _ h)) ho
            (parted_of_stopsRun hr.stopsRun)
  | remark ho hr hr' =>
      obtain ⟨us, vs, hu, hv, rfl⟩ := (splits_append ho (parted_of_stopsRun hr.stopsRun)).1 hw
      obtain rfl := hv.unique (hr.splits fun h => hf (List.mem_append_right _ h))
      exact hu.join (hr'.splits fun h => hf' (List.mem_append_right _ h)) ho
        (parted_of_stopsRun hr'.stopsRun)

end Lc3
