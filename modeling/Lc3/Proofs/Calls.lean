import Lc3.Proofs.Effects
import Lc3.Proofs.Stopping

/-!
# Calls and their returns

A step changes the number of calls that have not returned by one at most. Main statement: executing
an instruction with what it calls ends with the return of the call, and running out of a routine
ends with the return of the routine.
-/

namespace Lc3

namespace Instr

variable {i : Instr} {depth : Nat}

theorem depthAfter_of_isCall (h : i.isCall = true) : i.depthAfter depth = depth + 1 := by
  cases i with
  | jsr | trap => rfl
  | _ => cases h

theorem depthAfter_le (h : i.isCall = false) : i.depthAfter depth ≤ depth := by
  cases i with
  | jsr | trap => cases h
  | jmp base =>
      rw [depthAfter]
      split
      · exact Nat.sub_le depth 1
      · exact Nat.le_refl depth
  | _ => exact Nat.le_refl depth

/-- Only a return makes the depth less, and by one. -/
theorem return_of_depthAfter_lt (h : i.depthAfter depth < depth) :
    i = .jmp Reg.link ∧ i.depthAfter depth + 1 = depth := by
  cases i with
  | jsr | trap => exact absurd h (Nat.not_lt.2 (Nat.le_succ depth))
  | jmp base =>
      rw [depthAfter] at h ⊢
      split at h
      case isTrue hlink =>
        rw [if_pos hlink, hlink]
        exact ⟨rfl, by omega⟩
      case isFalse => exact absurd h (Nat.lt_irrefl depth)
  | _ => exact absurd h (Nat.lt_irrefl depth)

end Instr

namespace Machine

variable {m : Machine} {k level : Nat}

/-- The instruction that is executed after `k` steps. -/
def instrAt (m : Machine) (k : Nat) : Instr := (m.steps k).step.1.instr

theorem callDepth_succ :
    (m.steps (k + 1)).callDepth = (m.instrAt k).depthAfter (m.steps k).callDepth :=
  counts_execute.2

/-- The step that goes below a level is a return, to just below it. -/
theorem return_of_below (habove : level ≤ (m.steps k).callDepth)
    (hbelow : (m.steps (k + 1)).callDepth < level) :
    m.instrAt k = .jmp Reg.link ∧ (m.steps (k + 1)).callDepth + 1 = level := by
  have hsucc := callDepth_succ (m := m) (k := k)
  obtain ⟨hreturn, hdepth⟩ :=
    Instr.return_of_depthAfter_lt (hsucc ▸ Nat.lt_of_lt_of_le hbelow habove)
  exact ⟨hreturn, by omega⟩

end Machine

namespace Debugger

variable {d : Debugger} {m m' : Machine} {fuel : Nat} {req : Request}

/-- A request that is finished was finished by the last of its instructions, and not before. -/
theorem steps_of_completed (hout : req = .stepOut → m.callDepth ≠ 0)
    (h : d.serve fuel m req = some (.completed, m')) :
    ∃ k, m' = m.steps (k + 1) ∧ req.Goal m (m.steps (k + 1)) ∧
      ∀ j, 1 ≤ j → j ≤ k → ¬ req.Goal m (m.steps j) := by
  obtain ⟨k, hstop, rfl⟩ := stopsAt_of_serve hout h
  obtain ⟨hk, hgoal⟩ := hstop.meets
  obtain ⟨k, rfl⟩ := Nat.exists_eq_add_of_le' hk
  exact ⟨k, rfl, hgoal, fun j hj hjk hmeets =>
    hstop.least j (Nat.lt_succ_of_le hjk) .completed ⟨hj, hmeets⟩⟩

theorem stepOver_completed (h : d.stepOver fuel m = some (.completed, m')) :
    ∃ k, m' = m.steps (k + 1) ∧
      (k = 0 ∧ (m.instrAt 0).isCall = false ∨
        (m.instrAt 0).isCall = true ∧ m.instrAt k = .jmp Reg.link ∧
          m'.callDepth = m.callDepth ∧
          ∀ j, 1 ≤ j → j ≤ k → m.callDepth < (m.steps j).callDepth) := by
  have hserve : d.serve fuel m .stepOver = some (.completed, m') := h
  obtain ⟨k, rfl, hgoal, hbefore⟩ := steps_of_completed (fun h => by cases h) hserve
  have hbelow : (m.steps (k + 1)).callDepth ≤ m.callDepth := hgoal
  have habove : ∀ j, 1 ≤ j → j ≤ k → m.callDepth < (m.steps j).callDepth := fun j hj hjk =>
    Nat.lt_of_not_le (hbefore j hj hjk)
  have hfirst : (m.steps 1).callDepth = (m.instrAt 0).depthAfter m.callDepth :=
    Machine.callDepth_succ
  refine ⟨k, rfl, ?_⟩
  cases hcall : (m.instrAt 0).isCall with
  | false =>
      have hdepth : (m.steps 1).callDepth ≤ m.callDepth := hfirst ▸ Instr.depthAfter_le hcall
      refine .inl ⟨Nat.eq_zero_of_not_pos fun hk => ?_, rfl⟩
      exact absurd (habove 1 (Nat.le_refl 1) hk) (Nat.not_lt.2 hdepth)
  | true =>
      have hdepth : (m.steps 1).callDepth = m.callDepth + 1 :=
        hfirst.trans (Instr.depthAfter_of_isCall hcall)
      have hk : 1 ≤ k := by
        rw [Nat.one_le_iff_ne_zero]
        rintro rfl
        have hback : (m.steps 1).callDepth ≤ m.callDepth := hbelow
        omega
      obtain ⟨hreturn, hback⟩ :=
        Machine.return_of_below (habove k hk (Nat.le_refl k)) (Nat.lt_succ_of_le hbelow)
      exact .inr ⟨rfl, hreturn, Nat.succ.inj hback, habove⟩

theorem stepOut_completed (hdepth : m.callDepth ≠ 0)
    (h : d.stepOut fuel m = some (.completed, m')) :
    ∃ k, m' = m.steps (k + 1) ∧ m.instrAt k = .jmp Reg.link ∧ m'.callDepth + 1 = m.callDepth ∧
      ∀ j ≤ k, m.callDepth ≤ (m.steps j).callDepth := by
  have hserve : d.serve fuel m .stepOut = some (.completed, m') := h
  obtain ⟨k, rfl, hgoal, hbefore⟩ := steps_of_completed (fun _ => hdepth) hserve
  have habove : ∀ j ≤ k, m.callDepth ≤ (m.steps j).callDepth := by
    intro j hj
    obtain rfl | hpos := Nat.eq_zero_or_pos j
    · exact Nat.le_refl m.callDepth
    · exact Nat.le_of_not_lt (hbefore j hpos hj)
  obtain ⟨hreturn, hback⟩ := Machine.return_of_below (habove k (Nat.le_refl k)) hgoal
  exact ⟨k, rfl, hreturn, hback, habove⟩

/-! ## Main statement -/

/-- If executing an instruction with what it calls is finished, the instruction called nothing and
was the only one, or it was a call and the last instruction the return to the depth of the call. If
running out of a routine is finished, the last instruction was the return of the routine. Outside of
any routine nothing is executed. -/
theorem calls_bracketed (d : Debugger) (m : Machine) (fuel : Nat) :
    (∀ m', d.stepOver fuel m = some (.completed, m') → ∃ k, m' = m.steps (k + 1) ∧
      (k = 0 ∧ (m.instrAt 0).isCall = false ∨
        (m.instrAt 0).isCall = true ∧ m.instrAt k = .jmp Reg.link ∧
          m'.callDepth = m.callDepth ∧
          ∀ j, 1 ≤ j → j ≤ k → m.callDepth < (m.steps j).callDepth)) ∧
    (0 < m.callDepth → ∀ m', d.stepOut fuel m = some (.completed, m') → ∃ k,
      m' = m.steps (k + 1) ∧ m.instrAt k = .jmp Reg.link ∧ m'.callDepth + 1 = m.callDepth ∧
        ∀ j ≤ k, m.callDepth ≤ (m.steps j).callDepth) ∧
    (m.callDepth = 0 → d.stepOut fuel m = some (.completed, m)) := by
  refine ⟨fun m' => stepOver_completed, fun hdepth m' => ?_, fun hdepth => if_pos hdepth⟩
  exact stepOut_completed (Nat.ne_of_gt hdepth)

/-- A routine that calls another keeps the way back in `R6`. The call of the first is stepped over,
and from inside the first its return is run to. -/
theorem calls_bracketed_nested :
    let m := Machine.new {}
      ⟨0x3000, [0x4801, 0x0000, 0x1DE0, 0x4802, 0x1FA0, 0xC1C0, 0xC1C0], .empty⟩
    let d : Debugger := ⟨[], some 10⟩
    0 < (m.steps 1).callDepth ∧
      d.stepOver d.enough m = some (.completed, m.steps 6) ∧
      d.stepOut d.enough (m.steps 1) = some (.completed, (m.steps 1).steps 5) ∧
      (∃ k, m.steps 6 = m.steps (k + 1) ∧ m.instrAt k = .jmp Reg.link ∧
        ∀ j, 1 ≤ j → j ≤ k → m.callDepth < (m.steps j).callDepth) ∧
      ∃ k, (m.steps 1).steps 5 = (m.steps 1).steps (k + 1) ∧
        (m.steps 1).instrAt k = .jmp Reg.link ∧
          ((m.steps 1).steps 5).callDepth + 1 = (m.steps 1).callDepth := by
  intro m d
  have hdepth : 0 < (m.steps 1).callDepth := by decide
  have hcall : (m.instrAt 0).isCall = true := by decide
  have hover : d.StopsAt (Request.Goal m .stepOver) m 6 .completed :=
    ⟨by decide +kernel, fun r hr => absurd hr (Nat.not_lt_zero _), fun j hj r => by
      cases r <;> revert j <;> decide⟩
  have hout : d.StopsAt (Request.Goal (m.steps 1) .stepOut) (m.steps 1) 5 .completed :=
    ⟨by decide +kernel, fun r hr => absurd hr (Nat.not_lt_zero _), fun j hj r => by
      cases r <;> revert j <;> decide⟩
  have hstepOver : d.serve d.enough m .stepOver = some (.completed, m.steps 6) :=
    serve_of_stopsAt (fun h => by cases h) hover (by decide)
  have hstepOut : d.serve d.enough (m.steps 1) .stepOut =
      some (.completed, (m.steps 1).steps 5) :=
    serve_of_stopsAt (fun _ => Nat.ne_of_gt hdepth) hout (by decide)
  refine ⟨hdepth, hstepOver, hstepOut, ?_, ?_⟩
  · obtain ⟨k, hk, ⟨-, hnone⟩ | ⟨-, hreturn, -, habove⟩⟩ :=
      (calls_bracketed d m d.enough).1 _ hstepOver
    · exact absurd (hnone.symm.trans hcall) Bool.false_ne_true
    · exact ⟨k, hk, hreturn, habove⟩
  · obtain ⟨k, hk, hreturn, hback, -⟩ :=
      (calls_bracketed d (m.steps 1) d.enough).2.1 hdepth _ hstepOut
    exact ⟨k, hk, hreturn, hback⟩

end Debugger

end Lc3
