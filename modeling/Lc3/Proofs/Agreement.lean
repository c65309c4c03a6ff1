import Lc3.AsmError

/-!
# Runs that agree

Two runs agree if both give results, which are related, or both fail, with errors that are related.
Runs agree if their steps do.
-/

namespace Lc3

/-- Both runs give results related by `R`, or both fail with errors related by `E`. -/
inductive Agree {ε ε' α β : Type} (E : ε → ε' → Prop) (R : α → β → Prop) :
    Except ε α → Except ε' β → Prop
  | ok {a : α} {b : β} (h : R a b) : Agree E R (.ok a) (.ok b)
  | error {e : ε} {e' : ε'} (h : E e e') : Agree E R (.error e) (.error e')

namespace Agree

variable {ε ε' δ δ' α β γ κ : Type} {E : ε → ε' → Prop} {F : δ → δ' → Prop} {R : α → β → Prop}
  {S : γ → κ → Prop} {x : Except ε α} {y : Except ε' β}

@[simp] theorem ok_iff {a : α} {b : β} : Agree E R (.ok a) (.ok b) ↔ R a b :=
  ⟨fun h => by cases h; assumption, .ok⟩

@[simp] theorem error_iff {e : ε} {e' : ε'} :
    Agree E R (.error e : Except ε α) (.error e' : Except ε' β) ↔ E e e' :=
  ⟨fun h => by cases h; assumption, .error⟩

@[simp] theorem not_ok_error {a : α} {e : ε'} :
    ¬ Agree E R (.ok a : Except ε α) (.error e : Except ε' β) := nofun

@[simp] theorem not_error_ok {e : ε} {b : β} :
    ¬ Agree E R (.error e : Except ε α) (.ok b : Except ε' β) := nofun

theorem mono {E' : ε → ε' → Prop} {R' : α → β → Prop} (h : Agree E R x y)
    (hE : ∀ e e', E e e' → E' e e') (hR : ∀ a b, R a b → R' a b) : Agree E' R' x y := by
  cases h with
  | ok h => exact .ok (hR _ _ h)
  | error h => exact .error (hE _ _ h)

theorem refl {E : ε → ε → Prop} {R : α → α → Prop} (hE : ∀ e, E e e) (hR : ∀ a, R a a)
    (x : Except ε α) : Agree E R x x := by
  cases x with
  | ok a => exact .ok (hR a)
  | error e => exact .error (hE e)

theorem trans {ε'' : Type} {E' : ε' → ε'' → Prop} {E'' : ε → ε'' → Prop} {R' : β → γ → Prop}
    {R'' : α → γ → Prop} {z : Except ε'' γ} (h : Agree E R x y) (h' : Agree E' R' y z)
    (hE : ∀ e e' e'', E e e' → E' e' e'' → E'' e e'')
    (hR : ∀ a b c, R a b → R' b c → R'' a c) : Agree E'' R'' x z := by
  cases h with
  | ok h =>
      cases h' with
      | ok h' => exact .ok (hR _ _ _ h h')
  | error h =>
      cases h' with
      | error h' => exact .error (hE _ _ _ h h')

theorem bind {f : α → Except ε γ} {g : β → Except ε' κ} (h : Agree E R x y)
    (hf : ∀ a b, R a b → Agree E S (f a) (g b)) : Agree E S (x >>= f) (y >>= g) := by
  cases h with
  | ok h => exact hf _ _ h
  | error h => exact .error h

theorem map {f : α → γ} {g : β → κ} (h : Agree E R x y) (hf : ∀ a b, R a b → S (f a) (g b)) :
    Agree E S (x.map f) (y.map g) := by
  cases h with
  | ok h => exact .ok (hf _ _ h)
  | error h => exact .error h

theorem mapError {f : ε → δ} {g : ε' → δ'} (h : Agree E R x y)
    (hf : ∀ e e', E e e' → F (f e) (g e')) : Agree F R (x.mapError f) (y.mapError g) := by
  cases h with
  | ok h => exact .ok h
  | error h => exact .error (hf _ _ h)

theorem with_left {P : α → Prop} (h : Agree E R x y) (hP : ∀ a, x = .ok a → P a) :
    Agree E (fun a b => P a ∧ R a b) x y := by
  cases h with
  | ok h => exact .ok ⟨hP _ rfl, h⟩
  | error h => exact .error h

theorem iff_exists : Agree E R x y ↔
    (∃ a b, x = .ok a ∧ y = .ok b ∧ R a b) ∨ ∃ e e', x = .error e ∧ y = .error e' ∧ E e e' := by
  cases x <;> cases y <;> simp

end Agree

end Lc3
