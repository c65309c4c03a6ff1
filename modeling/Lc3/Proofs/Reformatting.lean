import Mathlib.Logic.Relation
import Lc3.Proofs.Recasing

/-!
# Sources that are written in another way

Where spaces, blank lines and comments stand, what stands behind the first `.END`, and how the words
of commands and the numbers are capitalized, is a matter of taste. Main statement: such changes, as
many as there are, lead to the same object file or to the same error.
-/

namespace Lc3

open Token

/-! ## Changes -/

/-- A line that can be read. -/
def Line.Readable (text : List Char) : Prop := ∃ n l, Line.read n text = .ok l

/-- A line that is read as one of `.END`. -/
def Line.IsEnd (text : List Char) : Prop := ∃ n l, Line.read n text = .ok l ∧ EndLine l.tokens

/-- A source that is laid out in another way. -/
inductive Relaid (source source' : String) : Prop
  /-- A line has other spaces or another comment. -/
  | line {above below : List (List Char)} {text text' : List Char} (h : Respaced text text')
      (hs : Text.lines source.toList = above ++ text :: below)
      (hs' : Text.lines source'.toList = above ++ text' :: below)
  /-- A blank line is inserted. -/
  | insert {above below : List (List Char)} {text : List Char} (h : Blank text)
      (hs : Text.lines source.toList = above ++ below)
      (hs' : Text.lines source'.toList = above ++ text :: below)
  /-- A blank line is deleted. -/
  | delete {above below : List (List Char)} {text : List Char} (h : Blank text)
      (hs : Text.lines source.toList = above ++ text :: below)
      (hs' : Text.lines source'.toList = above ++ below)
  /-- Lines are added somewhere behind a line of `.END`. -/
  | extend {above more below : List (List Char)} (hend : ∃ text ∈ above, Line.IsEnd text)
      (hmore : ∀ text ∈ more, Line.Readable text)
      (hs : Text.lines source.toList = above ++ below)
      (hs' : Text.lines source'.toList = above ++ (more ++ below))

/-- A source in which a number or the word of a command is written in other case. -/
inductive Recapitalized (source source' : String) : Prop
  | line {above below : List (List Char)} {text text' : List Char} (h : Recased text text')
      (hs : Text.lines source.toList = above ++ text :: below)
      (hs' : Text.lines source'.toList = above ++ text' :: below)

variable {strict : Prop} {text text' : List Char}
  {above more below rest rest' texts : List (List Char)}
  {ps qs : List Piece} {source source' : String} {ls : List Line} {o : ObjectFile} {n : Nat}

theorem Text.not_mem_of_mem_lines {cs : List Char} (h : text ∈ Text.lines cs) : '\n' ∉ text := by
  fun_induction lines cs generalizing text with
  | case1 => cases h
  | case2 rest ih | case3 rest ih =>
      rcases List.mem_cons.1 h with rfl | h
      · simp
      · exact ih h
  | case4 c rest hfeed _ hlines ih =>
      obtain rfl := List.mem_singleton.1 h
      simpa using Ne.symm hfeed
  | case5 c rest hfeed _ line more hlines ih =>
      rw [hlines] at ih
      rcases List.mem_cons.1 h with rfl | h
      · have := ih (.head _)
        simpa [this] using Ne.symm hfeed
      · exact ih (.tail _ h)

/-! ## Lines that are read alike -/

/-- Whatever line a text is read as, the other one is read as a line that is alike. -/
def TextAlike (strict : Prop) (text text' : List Char) : Prop :=
  ∀ n n' l, Line.read n text = .ok l →
    ∃ l', Line.read n' text' = .ok l' ∧ LikePieces strict l.tokens l'.tokens

/-- Whatever lines some texts are read as, the others are read as lines that are alike. -/
def TextsAlike (strict : Prop) (texts texts' : List (List Char)) : Prop :=
  ∀ n n' ls, Line.readFrom n texts = .ok ls →
    ∃ ls', Line.readFrom n' texts' = .ok ls' ∧ LikeLines strict ls ls'

theorem TextAlike.of_splits (h : ∀ ws, Splits text ws → Splits text' ws) :
    TextAlike strict text text' := by
  intro n n' l hl
  obtain ⟨l', hl', hws⟩ := Line.read_of_splits (h _ (Line.splits_of_read hl)) n'
  exact ⟨l', hl', .command (.of_forall₂ (forall₂_like hws))⟩

theorem TextAlike.refl (text : List Char) : TextAlike strict text text :=
  .of_splits fun _ => id

theorem Respaced.alike (h : Respaced text text') (hf : '\n' ∉ text) (hf' : '\n' ∉ text') :
    TextAlike strict text text' :=
  .of_splits fun _ hw => h.splits hw hf hf'

theorem Recased.alike (h : Recased text text') : TextAlike False text text' := by
  intro n n' l hl
  obtain ⟨ws, hw, hlike⟩ := h.exists_splits (Line.splits_of_read hl)
  obtain ⟨l', hl', hws⟩ := Line.read_of_splits hw n'
  exact ⟨l', hl', hlike _ hws⟩

theorem Blank.read (h : Blank text) (hf : '\n' ∉ text) (n : Nat) :
    ∃ l, Line.read n text = .ok l ∧ l.tokens = [] := by
  obtain ⟨l, hl, hws⟩ := Line.read_of_splits (h.splits hf) n
  exact ⟨l, hl, List.map_eq_nil_iff.1 hws⟩

theorem EndLine.of_like (h : EndLine ps) (hl : List.Forall₂ (Piece.Like True) ps qs) :
    EndLine qs := by
  cases h with
  | command hp hd =>
      obtain _ | ⟨hlike, _⟩ := hl
      exact .command (hlike.1.trans hp) hd
  | label hc hp hd =>
      obtain _ | ⟨hlabel, _ | ⟨hlike, _⟩⟩ := hl
      exact .label (hlabel.1 ▸ hc) (hlike.1.trans hp) hd

theorem Line.IsEnd.endLine {l : Line} (h : IsEnd text) (hl : read n text = .ok l) :
    EndLine l.tokens := by
  obtain ⟨_, k, hk, hend⟩ := h
  exact hend.of_like (forall₂_like ((splits_of_read hl).unique (splits_of_read hk)))

/-! ## Texts line by line -/

namespace TextsAlike

theorem cons (ht : TextAlike strict text text') (h : TextsAlike strict rest rest') :
    TextsAlike strict (text :: rest) (text' :: rest') := by
  intro n n' ls hls
  obtain ⟨l, ls, hl, hrest, rfl⟩ := Line.readFrom_cons.1 hls
  obtain ⟨l', hl', hlike⟩ := ht n n' l hl
  obtain ⟨ls', hls', hlikes⟩ := h (n + 1) (n' + 1) ls hrest
  exact ⟨l' :: ls', Line.readFrom_cons.2 ⟨l', ls', hl', hls', rfl⟩, .cons hlike hlikes⟩

theorem refl (texts : List (List Char)) : TextsAlike strict texts texts := by
  induction texts with
  | nil =>
      intro n n' ls hls
      cases hls
      exact ⟨[], rfl, .nil⟩
  | cons text texts ih => exact ih.cons (.refl text)

theorem append (h : TextsAlike strict rest rest') (above : List (List Char)) :
    TextsAlike strict (above ++ rest) (above ++ rest') := by
  induction above with
  | nil => exact h
  | cons text above ih => exact ih.cons (.refl text)

theorem insert (h : Blank text) (hf : '\n' ∉ text) : TextsAlike strict rest (text :: rest) := by
  intro n n' ls hls
  obtain ⟨l', hl', hempty⟩ := h.read hf n'
  obtain ⟨ls', hls', hlikes⟩ := refl rest n (n' + 1) ls hls
  exact ⟨l' :: ls', Line.readFrom_cons.2 ⟨l', ls', hl', hls', rfl⟩, .blank' hempty hlikes⟩

theorem delete (h : Blank text) (hf : '\n' ∉ text) : TextsAlike strict (text :: rest) rest := by
  intro n n' ls hls
  obtain ⟨l, ls, hl, hrest, rfl⟩ := Line.readFrom_cons.1 hls
  obtain ⟨ls', hls', hlikes⟩ := refl rest (n + 1) n' ls hrest
  obtain ⟨k, hk, hempty⟩ := h.read hf n
  cases hk.symm.trans hl
  exact ⟨ls', hls', .blank hempty hlikes⟩

theorem exists_readFrom (h : ∀ text ∈ texts, Line.Readable text) (n : Nat) :
    ∃ ls, Line.readFrom n texts = .ok ls := by
  induction texts generalizing n with
  | nil => exact ⟨[], rfl⟩
  | cons text texts ih =>
      obtain ⟨k, l, hl⟩ := h text (.head _)
      have halike : TextAlike True text text := .refl text
      obtain ⟨l', hl', -⟩ := halike k n l hl
      obtain ⟨ls, hls⟩ := ih (fun t ht => h t (.tail _ ht)) (n + 1)
      exact ⟨l' :: ls, Line.readFrom_cons.2 ⟨l', ls, hl', hls, rfl⟩⟩

theorem extend (hend : ∃ text ∈ above, Line.IsEnd text)
    (hmore : ∀ text ∈ more, Line.Readable text) :
    TextsAlike strict (above ++ below) (above ++ (more ++ below)) := by
  -- Lines up to that of `.END` are the same, and those behind it need not be alike.
  induction above with
  | nil => obtain ⟨_, ⟨⟩, -⟩ := hend
  | cons text above ih =>
      obtain ⟨endText, hmem, hend⟩ := hend
      rcases List.mem_cons.1 hmem with rfl | hmem
      · intro n n' ls hls
        obtain ⟨l, ls, hl, hrest, rfl⟩ := Line.readFrom_cons.1 hls
        obtain ⟨l', hl', hlike⟩ := TextAlike.refl endText n n' l hl
        have hreadable : ∀ text ∈ above ++ (more ++ below), Line.Readable text := by
          have hold : ∀ text ∈ above ++ below, Line.Readable text := fun _ =>
            Line.exists_read hrest
          simp only [List.mem_append] at hold ⊢
          rintro text (h | h | h)
          · exact hold text (.inl h)
          · exact hmore text h
          · exact hold text (.inr h)
        obtain ⟨ls', hls'⟩ := exists_readFrom hreadable (n' + 1)
        exact ⟨l' :: ls', Line.readFrom_cons.2 ⟨l', ls', hl', hls', rfl⟩,
          .last hlike (hend.endLine hl)⟩
      · exact (ih ⟨endText, hmem, hend⟩).cons (.refl text)

end TextsAlike

/-! ## Sources -/

/-- Whatever lines a source is read as, the other one is read as lines that are alike. -/
def SourceAlike (strict : Prop) (source source' : String) : Prop :=
  ∀ ls, Line.readAll source = .ok ls →
    ∃ ls', Line.readAll source' = .ok ls' ∧ LikeLines strict ls ls'

theorem SourceAlike.of_lines {texts texts' : List (List Char)}
    (hs : Text.lines source.toList = texts) (hs' : Text.lines source'.toList = texts')
    (h : (∀ text ∈ texts, '\n' ∉ text) → (∀ text ∈ texts', '\n' ∉ text) →
      TextsAlike strict texts texts') : SourceAlike strict source source' := by
  subst hs hs'
  exact h (fun _ => Text.not_mem_of_mem_lines) (fun _ => Text.not_mem_of_mem_lines) 1 1

theorem Relaid.alike (h : Relaid source source') : SourceAlike strict source source' := by
  cases h with
  | line h hs hs' =>
      refine .of_lines hs hs' fun hf hf' => .append (.cons ?_ (.refl _)) _
      exact h.alike (hf _ (by simp)) (hf' _ (by simp))
  | insert h hs hs' => exact .of_lines hs hs' fun _ hf' => .append (.insert h (hf' _ (by simp))) _
  | delete h hs hs' => exact .of_lines hs hs' fun hf _ => .append (.delete h (hf _ (by simp))) _
  | extend hend hmore hs hs' => exact .of_lines hs hs' fun _ _ => .extend hend hmore

theorem Recapitalized.alike (h : Recapitalized source source') :
    SourceAlike False source source' := by
  cases h with
  | line h hs hs' => exact .of_lines hs hs' fun _ _ => .append (.cons h.alike (.refl _)) _

namespace ObjectFile

theorem assemble_of_steps {Step : String → String → Prop}
    (hstep : ∀ s s', Step s s' → SourceAlike strict s s') (h : Line.readAll source = .ok ls)
    (hs : Relation.ReflTransGen Step source source') :
    (∃ ls', Line.readAll source' = .ok ls') ∧
      Agree (AsmError.Like strict) (· = ·) (assemble source) (assemble source') := by
  induction hs with
  | refl => exact ⟨⟨ls, h⟩, .refl (fun _ _ => rfl) (fun _ => rfl) _⟩
  | tail _ hs ih =>
      obtain ⟨⟨ls', hls'⟩, hagree⟩ := ih
      obtain ⟨ls'', hls'', hlike⟩ := hstep _ _ hs ls' hls'
      refine ⟨⟨ls'', hls''⟩, hagree.trans (assemble_like hls' hls'' hlike) ?_ fun _ _ _ => Eq.trans⟩
      exact fun _ _ _ he he' hs => (he' hs).trans (he hs)

/-- A source that is laid out in another way is assembled to the same object file, or fails for the
same cause; and if it is assembled, other capitals in its numbers and commands change nothing. -/
theorem assemble_reformatted (h : Line.readAll source = .ok ls) :
    (∀ source', Relation.ReflTransGen Relaid source source' →
      (∃ o, assemble source = .ok o ∧ assemble source' = .ok o) ∨
        ∃ e e', assemble source = .error e ∧ assemble source' = .error e' ∧
          e'.cause = e.cause) ∧
      ∀ o, assemble source = .ok o → ∀ source',
        Relation.ReflTransGen (fun s s' => Relaid s s' ∨ Recapitalized s s') source source' →
          assemble source' = .ok o := by
  constructor
  · intro source' hs
    obtain ⟨-, hagree⟩ := assemble_of_steps (fun _ _ => Relaid.alike) h hs
    rcases Agree.iff_exists.1 hagree with ⟨o, _, ho, ho', rfl⟩ | ⟨e, e', he, he', hcause⟩
    · exact .inl ⟨o, ho, ho'⟩
    · exact .inr ⟨e, e', he, he', hcause trivial⟩
  · intro o ho source' hs
    have halike (s s' : String) (hs : Relaid s s' ∨ Recapitalized s s') : SourceAlike False s s' :=
      hs.elim Relaid.alike Recapitalized.alike
    obtain ⟨-, hagree⟩ := assemble_of_steps halike h hs
    rcases Agree.iff_exists.1 hagree with ⟨_, _, hleft, ho', rfl⟩ | ⟨_, _, he, -, -⟩
    · cases ho.symm.trans hleft
      exact ho'
    · cases ho.symm.trans he

/-- Other separators, a line behind `.END`, and then a capital. -/
theorem assemble_reformatted_lines :
    let source := ".orig x3000\nA add r0,r0,x-a;b\n.end"
    let longer := ".orig x3000\nA add r0 , r0,x-a;b\n.end\nand"
    let recased := ".orig x3000\nA Add r0 , r0,x-a;b\n.end\nand"
    let o : ObjectFile := ⟨0x3000, [0x1036], .ofList [("A", 0x3000)]⟩
    (∃ o, assemble source = .ok o ∧ assemble longer = .ok o) ∧ assemble source = .ok o ∧
      assemble recased = .ok o := by
  intro source longer recased o
  let spaced := ".orig x3000\nA add r0 , r0,x-a;b\n.end"
  have hread : Line.readAll source = .ok [
      ⟨1, [⟨.directive "orig", ".orig", 0⟩, ⟨.literal 0x3000, "x3000", 6⟩]⟩,
      ⟨2, [⟨.name "A", "A", 0⟩, ⟨.mnemonic .add, "add", 2⟩, ⟨.reg 0, "r0", 6⟩, ⟨.reg 0, "r0", 9⟩,
        ⟨.literal (-10), "x-a", 12⟩]⟩,
      ⟨3, [⟨.directive "end", ".end", 0⟩]⟩] := by decide
  have ho : assemble source = .ok o := by decide
  have hspaced : Relaid source spaced := by
    have ht : Respaced ("A add r0".toList ++ ",".toList ++ "r0,x-a;b".toList)
        ("A add r0".toList ++ " , ".toList ++ "r0,x-a;b".toList) :=
      .between (by decide) (by decide) (by decide) (by decide) (by decide)
    have hs : Text.lines source.toList = [".orig x3000".toList] ++
        ("A add r0".toList ++ ",".toList ++ "r0,x-a;b".toList) :: [".end".toList] := by
      decide
    exact .line ht hs (by decide)
  have hlonger : Relaid spaced longer := by
    have hend : Line.IsEnd ".end".toList :=
      ⟨1, ⟨1, [⟨.directive "end", ".end", 0⟩]⟩, by decide, .command rfl (by decide)⟩
    have hand : Line.Readable "and".toList :=
      ⟨1, ⟨1, [⟨.mnemonic .and, "and", 0⟩]⟩, by decide⟩
    have hs : Text.lines spaced.toList =
        [".orig x3000".toList, "A add r0 , r0,x-a;b".toList, ".end".toList] ++ [] := by
      decide
    have hs' : Text.lines longer.toList =
        [".orig x3000".toList, "A add r0 , r0,x-a;b".toList, ".end".toList] ++
          (["and".toList] ++ []) := by
      decide
    exact .extend ⟨_, by simp, hend⟩ (List.forall_mem_singleton.2 hand) hs hs'
  have hrecased : Recapitalized longer recased := by
    have hw : WordAt "A ".toList "add".toList " r0 , r0,x-a;b".toList :=
      ⟨by decide, by rintro _ ⟨⟩; decide, by decide, List.all_eq_true.1 (by decide),
        by rintro _ ⟨⟩; decide⟩
    have hc : AtCommand "A ".toList :=
      ⟨⟨1, [⟨.name "A", "A", 0⟩]⟩, by decide, .inr ⟨_, rfl, rfl⟩⟩
    have ht : ofRun "add".toList = .ok (.mnemonic .add) := by decide
    have hl : SameLetters "add".toList "Add".toList := by unfold SameLetters; decide
    have hs : Text.lines longer.toList = [".orig x3000".toList] ++
        ("A ".toList ++ "add".toList ++ " r0 , r0,x-a;b".toList) ::
          [".end".toList, "and".toList] := by
      decide
    exact .line (.mnemonic hw hl hc ht) hs (by decide)
  obtain ⟨hrelaid, hall⟩ := assemble_reformatted hread
  have hsteps : Relation.ReflTransGen Relaid source longer := .tail (.single hspaced) hlonger
  refine ⟨?_, ho, hall o ho recased ?_⟩
  · rcases hrelaid longer hsteps with h | ⟨_, _, he, -⟩
    · exact h
    · cases ho.symm.trans he
  · exact .tail (.tail (.single (.inl hspaced)) (.inl hlonger)) (.inr hrecased)

end ObjectFile

end Lc3
