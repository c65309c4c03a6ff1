import Lc3.Word

/-!
# Banks of cells

A bank holds one value for each address of `n` bits, as a perfect binary tree in which the low bit
of the address chooses the subtree. Reading and writing take `n` steps, writing shares what it does
not change, and two banks with the same cells are equal. Memory is a bank of 2^16 words.
-/

namespace Lc3

/-- The cells of all addresses of `n` bits: those of even addresses, then those of odd ones. -/
inductive Bank (α : Type) : Nat → Type where
  | leaf (a : α) : Bank α 0
  | node {n : Nat} (even odd : Bank α n) : Bank α (n + 1)

/-- The memory of the machine. -/
abbrev Memory := Bank Word 16

namespace Bank

variable {α : Type} {n : Nat}

/-- The bank that holds one value everywhere. -/
def fill (a : α) : (n : Nat) → Bank α n
  | 0 => .leaf a
  | n + 1 =>
    let half := fill a n
    .node half half

/-- The bank whose cell at `i` is `f i`. -/
def build : (n : Nat) → (f : Nat → α) → Bank α n
  | 0, f => .leaf (f 0)
  | n + 1, f => .node (build n fun i => f (2 * i)) (build n fun i => f (2 * i + 1))

/-- The value at a number below `1 <<< n`. -/
def getAt {n : Nat} : Bank α n → Nat → α
  | .leaf a, _ => a
  | .node even odd, i => if i % 2 = 0 then even.getAt (i / 2) else odd.getAt (i / 2)

/-- The bank with another value at a number below `1 <<< n`. -/
def setAt {n : Nat} : Bank α n → Nat → α → Bank α n
  | .leaf _, _, a => .leaf a
  | .node even odd, i, a =>
    if i % 2 = 0 then .node (even.setAt (i / 2) a) odd else .node even (odd.setAt (i / 2) a)

/-- The value at an address. -/
def get (b : Bank α n) (i : BitVec n) : α := b.getAt i.toNat

/-- The bank with another value at an address. -/
def set (b : Bank α n) (i : BitVec n) (a : α) : Bank α n := b.setAt i.toNat a

/-! ## Reading what was written -/

theorem getAt_setAt {b : Bank α n} {i j : Nat} {a : α} (hi : i < 1 <<< n) (hj : j < 1 <<< n) :
    (b.setAt i a).getAt j = if i = j then a else b.getAt j := by
  induction b generalizing i j with
  | leaf c =>
    have : i = j := by simp at hi hj; omega
    simp [setAt, getAt, this]
  | node even odd ihe iho =>
    rw [Nat.shiftLeft_succ] at hi hj
    have ihe := @ihe (i / 2) (j / 2) (by omega) (by omega)
    have iho := @iho (i / 2) (j / 2) (by omega) (by omega)
    have heq : i = j ↔ i % 2 = j % 2 ∧ i / 2 = j / 2 := by omega
    rcases Nat.mod_two_eq_zero_or_one i with h | h <;>
      rcases Nat.mod_two_eq_zero_or_one j with h' | h' <;>
      simp [setAt, getAt, h, h', heq, ihe, iho]

theorem toNat_lt (i : BitVec n) : i.toNat < 1 <<< n := by
  rw [Nat.one_shiftLeft]
  exact i.isLt

theorem get_set_self (b : Bank α n) (i : BitVec n) (a : α) : (b.set i a).get i = a := by
  simp [get, set, getAt_setAt (toNat_lt i) (toNat_lt i)]

theorem get_set_of_ne (b : Bank α n) {i j : BitVec n} (a : α) (h : i ≠ j) :
    (b.set i a).get j = b.get j := by
  have : i.toNat ≠ j.toNat := fun hij => h (BitVec.eq_of_toNat_eq hij)
  simp [get, set, getAt_setAt (toNat_lt i) (toNat_lt j), this]

theorem get_set (b : Bank α n) (i j : BitVec n) (a : α) :
    (b.set i a).get j = if i = j then a else b.get j := by
  by_cases h : i = j
  · subst h; simp [get_set_self]
  · simp [get_set_of_ne b a h, h]

theorem getAt_fill (a : α) (i : Nat) : (fill a n).getAt i = a := by
  induction n generalizing i with
  | zero => rfl
  | succ n ih => simp [fill, getAt, ih]

@[simp] theorem get_fill (a : α) (i : BitVec n) : (fill a n).get i = a := getAt_fill a i.toNat

theorem getAt_build {i : Nat} (f : Nat → α) (h : i < 1 <<< n) : (build n f).getAt i = f i := by
  induction n generalizing i f with
  | zero =>
    have : i = 0 := by simpa using h
    simp [build, getAt, this]
  | succ n ih =>
    rw [Nat.shiftLeft_succ] at h
    simp only [build, getAt]
    split
    · rw [ih _ (by omega)]; congr 1; omega
    · rw [ih _ (by omega)]; congr 1; omega

theorem get_build (f : Nat → α) (i : BitVec n) : (build n f).get i = f i.toNat :=
  getAt_build f (toNat_lt i)

theorem ext_getAt {b c : Bank α n} (h : ∀ i, i < 1 <<< n → b.getAt i = c.getAt i) : b = c := by
  induction b with
  | leaf a =>
    cases c with
    | leaf a' => exact congrArg Bank.leaf (h 0 (by simp))
  | @node n even odd ihe iho =>
    cases c with
    | node even' odd' =>
      have he : even = even' := ihe fun i hi => by
        have := h (2 * i) (by rw [Nat.shiftLeft_succ]; omega)
        simpa [getAt] using this
      have ho : odd = odd' := iho fun i hi => by
        have := h (2 * i + 1) (by rw [Nat.shiftLeft_succ]; omega)
        have h2 : (2 * i + 1) / 2 = i := by omega
        simpa [getAt, h2, Nat.add_mod] using this
      rw [he, ho]

/-- Banks with the same cells are equal. -/
theorem ext {b c : Bank α n} (h : ∀ i, b.get i = c.get i) : b = c :=
  ext_getAt fun i hi => by
    have := h (BitVec.ofNat n i)
    simpa [get, Nat.mod_eq_of_lt (Nat.one_shiftLeft n ▸ hi)] using this

end Bank

end Lc3
