import Lc3.Field

/-!
# Numbers in fields

A field gives back the number that was put into it, and a number from a field fits into one of the
same size.
-/

namespace Lc3.Field

variable {bits : Nat} {n : Int} {v : BitVec bits}

theorem signed?_eq_some : signed? bits n = some v ↔
    least bits ≤ n ∧ n ≤ greatest bits ∧ BitVec.ofInt bits n = v := by
  unfold signed?
  split
  · rename_i h
    simp [h]
  · rename_i h
    simp only [reduceCtorEq, false_iff]
    exact fun hv => h ⟨hv.1, hv.2.1⟩

/-- A signed field holds the number that was put into it. -/
theorem toInt_of_signed? (hb : 0 < bits) (h : signed? bits n = some v) : v.toInt = n := by
  obtain ⟨hl, hg, rfl⟩ := signed?_eq_some.1 h
  obtain ⟨k, rfl⟩ : ∃ k, bits = k + 1 := ⟨bits - 1, by omega⟩
  simp only [least, greatest, Nat.add_sub_cancel, Nat.one_shiftLeft] at hl hg
  have hp : (2 ^ (k + 1) : Nat) = 2 * 2 ^ k := Nat.pow_succ'
  rw [BitVec.toInt_ofInt]
  exact Int.bmod_eq_of_le (by omega) (by omega)

theorem signed?_toInt (hb : 0 < bits) : signed? bits v.toInt = some v := by
  obtain ⟨k, rfl⟩ : ∃ k, bits = k + 1 := ⟨bits - 1, by omega⟩
  refine signed?_eq_some.2 ⟨?_, ?_, BitVec.ofInt_toInt⟩
  · have := BitVec.le_toInt v
    simpa [least, Nat.one_shiftLeft] using this
  · have := @BitVec.toInt_lt _ v
    simp only [greatest, Nat.add_sub_cancel, Nat.one_shiftLeft] at this ⊢
    push_cast
    omega

theorem unsigned?_toNat : unsigned? bits v.toNat = some v := by
  have := v.isLt
  unfold unsigned?
  rw [Nat.one_shiftLeft, if_pos (by omega)]
  simp

end Lc3.Field
