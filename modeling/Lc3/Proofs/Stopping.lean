import Lc3.Debugger
import Lc3.Proofs.Access

/-!
# Where runs stop

A run has four reasons to stop, of which some are looked at before an instruction and some after it.
Main statement: a run stops after the least number of steps after which it has a reason to, and says
the first of its reasons; a run that was stopped by its limit can be taken up again.
-/

namespace Lc3

namespace Machine

variable {m : Machine}

theorem steps_add {j k : Nat} : (m.steps j).steps k = m.steps (j + k) := by
  induction k with
  | zero => rfl
  | succ k ih => exact congrArg (fun m => m.step.2) ih

end Machine

/-- The order in which reasons to stop are said. -/
def StopReason.rank : StopReason → Nat
  | .completed => 0
  | .breakpoint => 1
  | .halted => 2
  | .stepLimit => 3

namespace Debugger

/-! ## Reasons to stop -/

/-- After `k` steps from `m` there is this reason to stop. -/
def Meets (d : Debugger) (goal : Machine → Prop) (m : Machine) (k : Nat) : StopReason → Prop
  | .completed => 1 ≤ k ∧ goal (m.steps k)
  | .breakpoint => 1 ≤ k ∧ ∃ b ∈ d.breakpoints, b.check (m.steps k) = true
  | .halted => (m.steps k).isRunning = false
  | .stepLimit => ∃ limit ∈ d.stepLimit, limit ≤ k

instance Meets.decidable (d : Debugger) (goal : Machine → Prop) [DecidablePred goal] (m : Machine)
    (k : Nat) : ∀ r, Decidable (d.Meets goal m k r)
  | .completed => inferInstanceAs (Decidable (1 ≤ k ∧ goal (m.steps k)))
  | .breakpoint =>
    inferInstanceAs (Decidable (1 ≤ k ∧ ∃ b ∈ d.breakpoints, b.check (m.steps k) = true))
  | .halted => inferInstanceAs (Decidable ((m.steps k).isRunning = false))
  | .stepLimit => inferInstanceAs (Decidable (∃ limit ∈ d.stepLimit, limit ≤ k))

/-- A run from `m` stops after `k` steps: there was no reason to stop before, and this is the first
one that there is now. -/
structure StopsAt (d : Debugger) (goal : Machine → Prop) (m : Machine) (k : Nat)
    (reason : StopReason) : Prop where
  meets : d.Meets goal m k reason
  first : ∀ r, r.rank < reason.rank → ¬ d.Meets goal m k r
  least : ∀ j < k, ∀ r, ¬ d.Meets goal m j r

/-- What a debugger is asked for. -/
inductive Request where
  | run
  | stepIn
  | stepOver
  | stepOut
  deriving DecidableEq, Repr

/-- What a request at `m` is finished by. -/
def Request.Goal (m : Machine) : Request → Machine → Prop
  | .run, _ => False
  | .stepIn, _ => True
  | .stepOver, m' => m'.callDepth ≤ m.callDepth
  | .stepOut, m' => m'.callDepth < m.callDepth

instance Request.Goal.decidable (m : Machine) : ∀ req : Request, DecidablePred (req.Goal m)
  | .run => fun _ => inferInstanceAs (Decidable False)
  | .stepIn => fun _ => inferInstanceAs (Decidable True)
  | .stepOver => fun m' => inferInstanceAs (Decidable (m'.callDepth ≤ m.callDepth))
  | .stepOut => fun m' => inferInstanceAs (Decidable (m'.callDepth < m.callDepth))

/-- The answer of the debugger to a request. -/
def serve (d : Debugger) (fuel : Nat) (m : Machine) : Request → Option (StopReason × Machine)
  | .run => d.run fuel m
  | .stepIn => d.stepIn fuel m
  | .stepOver => d.stepOver fuel m
  | .stepOut => d.stepOut fuel m

/-- With another limit. -/
def within (d : Debugger) (limit : Nat) : Debugger := { d with stepLimit := some limit }

variable {d : Debugger} {goal : Machine → Prop} {m m' : Machine} {k k' n : Nat}
  {reason reason' : StopReason}

theorem isExhausted_iff : d.isExhausted k = true ↔ d.Meets goal m k .stepLimit := by
  unfold isExhausted
  cases h : d.stepLimit <;> simp [Meets, h]

theorem breaksAt_iff (hk : 1 ≤ k) :
    d.breaksAt (m.steps k) = true ↔ d.Meets goal m k .breakpoint := by
  simp [breaksAt, Meets, hk]

theorem rank_injective (h : reason.rank = reason'.rank) : reason = reason' := by
  cases reason <;> cases reason' <;> first | rfl | cases h

theorem StopsAt.unique (h : d.StopsAt goal m k reason) (h' : d.StopsAt goal m k' reason') :
    k = k' ∧ reason = reason' := by
  obtain hlt | rfl | hgt := Nat.lt_trichotomy k k'
  · exact absurd h.meets (h'.least k hlt reason)
  · refine ⟨rfl, rank_injective (Nat.le_antisymm ?_ ?_)⟩
    · exact Nat.le_of_not_lt fun hlt => h.first _ hlt h'.meets
    · exact Nat.le_of_not_lt fun hlt => h'.first _ hlt h.meets
  · exact absurd h'.meets (h.least k' hgt reason')

/-! ## Runs -/

/-- A run has come to `n` steps: it had no reason to stop before, and none of those that are looked
at after an instruction. -/
structure GoesOn (d : Debugger) (goal : Machine → Prop) (m : Machine) (n : Nat) : Prop where
  least : ∀ j < n, ∀ r, ¬ d.Meets goal m j r
  completed : ¬ d.Meets goal m n .completed
  breakpoint : ¬ d.Meets goal m n .breakpoint

namespace GoesOn

theorem zero : d.GoesOn goal m 0 where
  least := fun _ hj => absurd hj (Nat.not_lt_zero _)
  completed := fun h => absurd h.1 (by decide)
  breakpoint := fun h => absurd h.1 (by decide)

theorem stopsAt_halted (hn : d.GoesOn goal m n) (hhalted : d.Meets goal m n .halted) :
    d.StopsAt goal m n .halted where
  meets := hhalted
  first := by
    intro r hr
    cases r with
    | completed => exact hn.completed
    | breakpoint => exact hn.breakpoint
    | halted | stepLimit => simp [StopReason.rank] at hr
  least := hn.least

theorem stopsAt_stepLimit (hn : d.GoesOn goal m n) (hhalted : ¬ d.Meets goal m n .halted)
    (hlimit : d.Meets goal m n .stepLimit) : d.StopsAt goal m n .stepLimit where
  meets := hlimit
  first := by
    intro r hr
    cases r with
    | completed => exact hn.completed
    | breakpoint => exact hn.breakpoint
    | halted => exact hhalted
    | stepLimit => exact absurd hr (Nat.lt_irrefl _)
  least := hn.least

/-- If the clock runs and the limit is not reached either, the run executes an instruction, and then
it stops or it has come one step further. -/
theorem next (hn : d.GoesOn goal m n) (hhalted : ¬ d.Meets goal m n .halted)
    (hlimit : ¬ d.Meets goal m n .stepLimit) :
    d.StopsAt goal m (n + 1) .completed ∨ d.StopsAt goal m (n + 1) .breakpoint ∨
      d.GoesOn goal m (n + 1) := by
  have hleast : ∀ j < n + 1, ∀ r, ¬ d.Meets goal m j r := by
    intro j hj r
    obtain hlt | rfl := Nat.lt_succ_iff_lt_or_eq.1 hj
    · exact hn.least j hlt r
    · cases r with
      | completed => exact hn.completed
      | breakpoint => exact hn.breakpoint
      | halted => exact hhalted
      | stepLimit => exact hlimit
  by_cases hgoal : d.Meets goal m (n + 1) .completed
  · exact .inl ⟨hgoal, fun r hr => absurd hr (Nat.not_lt_zero _), hleast⟩
  by_cases hbreak : d.Meets goal m (n + 1) .breakpoint
  · refine .inr (.inl ⟨hbreak, fun r hr => ?_, hleast⟩)
    cases r with
    | completed => exact hgoal
    | breakpoint | halted | stepLimit => simp [StopReason.rank] at hr
  · exact .inr (.inr ⟨hleast, hgoal, hbreak⟩)

end GoesOn

variable {test : Machine → Bool} {fuel : Nat}

theorem runUntil_succ : d.runUntil test n (fuel + 1) (m.steps n) =
    if !(m.steps n).isRunning then some (.halted, m.steps n)
    else if d.isExhausted n then some (.stepLimit, m.steps n)
    else if test (m.steps (n + 1)) then some (.completed, m.steps (n + 1))
    else if d.breaksAt (m.steps (n + 1)) then some (.breakpoint, m.steps (n + 1))
    else d.runUntil test (n + 1) fuel (m.steps (n + 1)) := rfl

/-- A run that has come to `n` steps stops where it has to, or it goes on until its fuel is used
up. -/
theorem runUntil_cases (htest : ∀ m', test m' = true ↔ goal m') (hn : d.GoesOn goal m n)
    (fuel : Nat) :
    (∃ k reason, d.StopsAt goal m k reason ∧
      d.runUntil test n fuel (m.steps n) = some (reason, m.steps k)) ∨
    (d.runUntil test n fuel (m.steps n) = none ∧ d.GoesOn goal m (n + fuel)) := by
  induction fuel generalizing n with
  | zero => exact .inr ⟨rfl, hn⟩
  | succ fuel ih =>
      rw [runUntil_succ]
      by_cases hhalted : d.Meets goal m n .halted
      · have hclock : (m.steps n).isRunning = false := hhalted
        exact .inl ⟨n, _, hn.stopsAt_halted hhalted, by simp [hclock]⟩
      have hclock : (m.steps n).isRunning = true := by simpa [Meets] using hhalted
      by_cases hlimit : d.Meets goal m n .stepLimit
      · have hexhausted : d.isExhausted n = true := isExhausted_iff.2 hlimit
        exact .inl ⟨n, _, hn.stopsAt_stepLimit hhalted hlimit, by simp [hclock, hexhausted]⟩
      have hexhausted : ¬ d.isExhausted n = true := mt isExhausted_iff.1 hlimit
      have hbreaks : d.breaksAt (m.steps (n + 1)) = true ↔ d.Meets goal m (n + 1) .breakpoint :=
        breaksAt_iff (Nat.le_add_left 1 n)
      obtain hstop | hstop | hnext := hn.next hhalted hlimit
      · have htrue : test (m.steps (n + 1)) = true := (htest _).2 hstop.meets.2
        exact .inl ⟨n + 1, _, hstop, by simp [hclock, hexhausted, htrue]⟩
      · have hfalse : ¬ test (m.steps (n + 1)) = true := fun h =>
          hstop.first .completed (by decide) ⟨Nat.le_add_left 1 n, (htest _).1 h⟩
        exact .inl ⟨n + 1, _, hstop, by simp [hclock, hexhausted, hfalse, hbreaks.2 hstop.meets]⟩
      · have hfalse : ¬ test (m.steps (n + 1)) = true := fun h =>
          hnext.completed ⟨Nat.le_add_left 1 n, (htest _).1 h⟩
        have hloop := ih hnext
        rw [Nat.add_assoc, Nat.add_comm 1 fuel] at hloop
        simpa [hclock, hexhausted, hfalse, mt hbreaks.1 hnext.breakpoint] using hloop

/-! ## Requests -/

variable {req : Request}

theorem exists_test (hout : req = .stepOut → m.callDepth ≠ 0) :
    ∃ test : Machine → Bool, (∀ m', test m' = true ↔ req.Goal m m') ∧
      ∀ fuel, d.serve fuel m req = d.runUntil test 0 fuel (m.steps 0) := by
  cases req with
  | run => exact ⟨_, by simp [Request.Goal], fun _ => rfl⟩
  | stepIn => exact ⟨_, by simp [Request.Goal], fun _ => rfl⟩
  | stepOver => exact ⟨_, by simp [Request.Goal], fun _ => rfl⟩
  | stepOut =>
      have hdepth := hout rfl
      refine ⟨fun m' => m'.callDepth < m.callDepth, by simp [Request.Goal], fun fuel => ?_⟩
      exact if_neg hdepth

/-- A request is answered where the run has to stop, or it is not answered because there was no
reason to stop before the fuel was used up. -/
theorem serve_cases (d : Debugger) (fuel : Nat) (hout : req = .stepOut → m.callDepth ≠ 0) :
    (∃ k reason, d.StopsAt (req.Goal m) m k reason ∧
      d.serve fuel m req = some (reason, m.steps k)) ∨
    (d.serve fuel m req = none ∧ ∀ j < fuel, ∀ r, ¬ d.Meets (req.Goal m) m j r) := by
  obtain ⟨test, htest, hserve⟩ := exists_test (d := d) hout
  rw [hserve]
  obtain hstop | ⟨hnone, hgoes⟩ := runUntil_cases htest GoesOn.zero fuel
  · exact .inl hstop
  · rw [Nat.zero_add] at hgoes
    exact .inr ⟨hnone, hgoes.least⟩

theorem stopsAt_of_serve (hout : req = .stepOut → m.callDepth ≠ 0)
    (h : d.serve fuel m req = some (reason, m')) :
    ∃ k, d.StopsAt (req.Goal m) m k reason ∧ m' = m.steps k := by
  obtain ⟨k, reason, hstop, hsome⟩ | ⟨hnone, -⟩ := serve_cases d fuel hout
  · cases hsome.symm.trans h
    exact ⟨k, hstop, rfl⟩
  · cases hnone.symm.trans h

theorem serve_of_stopsAt (hout : req = .stepOut → m.callDepth ≠ 0)
    (h : d.StopsAt (req.Goal m) m k reason) (hfuel : k < fuel) :
    d.serve fuel m req = some (reason, m.steps k) := by
  obtain ⟨k', reason', hstop, hsome⟩ | ⟨-, hleast⟩ := serve_cases d fuel hout
  · obtain ⟨rfl, rfl⟩ := hstop.unique h
    exact hsome
  · exact absurd h.meets (hleast k hfuel reason)

theorem rank_le (r : StopReason) : r.rank ≤ 3 := by cases r <;> decide

/-- Where there is a reason to stop, there is a first one. -/
theorem exists_stopsAt (h : d.Meets goal m k reason) : ∃ j ≤ k, ∃ r, d.StopsAt goal m j r := by
  induction hn : 4 * k + reason.rank using Nat.strongRecOn generalizing k reason with
  | _ n ih =>
    by_cases hless : ∃ j r, 4 * j + r.rank < n ∧ d.Meets goal m j r
    · obtain ⟨j, r, hlt, hmeets⟩ := hless
      obtain ⟨i, hij, hstop⟩ := ih _ hlt hmeets rfl
      have hrank := rank_le reason
      exact ⟨i, by omega, hstop⟩
    · refine ⟨k, Nat.le_refl _, reason, h, fun r hr hmeets => ?_, fun j hj r hmeets => ?_⟩
      · exact hless ⟨k, r, by omega, hmeets⟩
      · have hrank := rank_le r
        exact hless ⟨j, r, by omega, hmeets⟩

/-- While the clock runs and the limit allows an instruction, a run starts. -/
theorem not_meets_zero (hclock : m.isRunning = true) (hlimit : d.stepLimit ≠ some 0) :
    ∀ j < 1, ∀ r, ¬ d.Meets goal m j r := by
  intro j hj r hmeets
  obtain rfl := Nat.lt_one_iff.1 hj
  cases r with
  | completed | breakpoint => exact absurd hmeets.1 (by decide)
  | halted => exact Bool.false_ne_true (hmeets.symm.trans hclock)
  | stepLimit =>
      obtain ⟨limit, hmem, hle⟩ := hmeets
      obtain rfl := Nat.le_zero.1 hle
      exact hlimit hmem

/-! ## Taking a run up again -/

section Continuation

variable {a b j : Nat}

/-- A run that its limit stops has executed as many instructions as the limit says. -/
theorem StopsAt.eq_limit (h : (d.within a).StopsAt goal m k .stepLimit) : k = a := by
  obtain ⟨limit, hlimit, hle⟩ := h.meets
  cases hlimit
  refine Nat.le_antisymm (Nat.le_of_not_lt fun hlt => ?_) hle
  exact h.least a hlt .stepLimit ⟨a, rfl, Nat.le_refl _⟩

/-- Reasons to stop before a limit are reasons to stop before any other. -/
theorem meets_within (hr : reason ≠ .stepLimit) :
    (d.within a).Meets goal m k reason ↔ (d.within b).Meets goal m k reason := by
  cases reason with
  | stepLimit => exact absurd rfl hr
  | _ => exact Iff.rfl

/-- After `a` steps without a breakpoint at the last of them, what stops a run with the limit `b` is
what stops a run with the limit `a + b`. -/
theorem meets_steps (hbreak : ¬ (d.within (a + b)).Meets goal m a .breakpoint) :
    (d.within b).Meets (Request.Goal (m.steps a) .run) (m.steps a) j reason ↔
      (d.within (a + b)).Meets (Request.Goal m .run) m (a + j) reason := by
  cases reason with
  | completed => exact ⟨fun h => h.2.elim, fun h => h.2.elim⟩
  | halted => simp only [Meets, Machine.steps_add]
  | stepLimit => simp [Meets, within]
  | breakpoint =>
      simp only [Meets, Machine.steps_add]
      constructor
      · rintro ⟨hj, hb⟩
        exact ⟨by omega, hb⟩
      · rintro ⟨haj, hb⟩
        refine ⟨Nat.one_le_iff_ne_zero.2 ?_, hb⟩
        rintro rfl
        exact hbreak ⟨haj, hb⟩

theorem stopsAt_steps (h : (d.within a).StopsAt (Request.Goal m .run) m k .stepLimit)
    (h' : (d.within b).StopsAt (Request.Goal (m.steps a) .run) (m.steps a) j reason) :
    (d.within (a + b)).StopsAt (Request.Goal m .run) m (a + j) reason := by
  obtain rfl := h.eq_limit
  have hbreak : ¬ (d.within (k + b)).Meets (Request.Goal m .run) m k .breakpoint := fun hmeets =>
    h.first .breakpoint (by decide) ((meets_within (by decide)).1 hmeets)
  refine ⟨(meets_steps hbreak).1 h'.meets, fun r hr hmeets => ?_, fun i hi r hmeets => ?_⟩
  · exact h'.first r hr ((meets_steps hbreak).2 hmeets)
  · obtain hlt | hle := Nat.lt_or_ge i k
    · by_cases hr : r = .stepLimit
      · subst hr
        obtain ⟨limit, hlimit, hle⟩ := hmeets
        cases hlimit
        omega
      · exact h.least i hlt r ((meets_within hr).1 hmeets)
    · obtain ⟨i, rfl⟩ := Nat.exists_eq_add_of_le hle
      exact h'.least i (by omega) r ((meets_steps hbreak).2 hmeets)

end Continuation

/-! ## Main statement -/

/-- A request is answered after the least number of steps after which there is a reason to stop,
with the first of the reasons, and not at all if there is none; with a limit there is always one. A
run that is stopped by its limit and taken up again with another is a run with the sum of the
limits. -/
theorem stops_first (d : Debugger) (m : Machine) :
    (∀ req, (req = .stepOut → m.callDepth ≠ 0) →
      (∀ fuel reason m', d.serve fuel m req = some (reason, m') →
        ∃ k, d.StopsAt (req.Goal m) m k reason ∧ m' = m.steps k) ∧
      (∀ k reason, d.Meets (req.Goal m) m k reason →
        ∃ j ≤ k, ∃ r, d.StopsAt (req.Goal m) m j r ∧
          ∀ fuel, j < fuel → d.serve fuel m req = some (r, m.steps j)) ∧
      ((∀ k reason, ¬ d.Meets (req.Goal m) m k reason) → ∀ fuel, d.serve fuel m req = none) ∧
      ∀ limit, d.stepLimit = some limit →
        ∃ k ≤ limit, ∃ reason, d.serve d.enough m req = some (reason, m.steps k)) ∧
    ∀ a b m₁, (d.within a).run (d.within a).enough m = some (.stepLimit, m₁) →
      (d.within b).run (d.within b).enough m₁ =
        (d.within (a + b)).run (d.within (a + b)).enough m := by
  refine ⟨fun req hout => ⟨fun fuel reason m' => stopsAt_of_serve hout, fun k reason hmeets => ?_,
    fun hnone fuel => ?_, fun limit hlimit => ?_⟩, fun a b m₁ hrun => ?_⟩
  · obtain ⟨j, hj, r, hstop⟩ := exists_stopsAt hmeets
    exact ⟨j, hj, r, hstop, fun fuel => serve_of_stopsAt hout hstop⟩
  · obtain ⟨k, reason, hstop, -⟩ | ⟨hserve, -⟩ := serve_cases d fuel hout
    · exact absurd hstop.meets (hnone k reason)
    · exact hserve
  · have hmeets : d.Meets (req.Goal m) m limit .stepLimit := ⟨limit, hlimit, Nat.le_refl _⟩
    obtain ⟨k, hk, reason, hstop⟩ := exists_stopsAt hmeets
    refine ⟨k, hk, reason, serve_of_stopsAt hout hstop ?_⟩
    rw [enough, hlimit]
    exact Nat.lt_succ_of_le hk
  · have hnever : ∀ m : Machine, Request.run = .stepOut → m.callDepth ≠ 0 := fun _ h => by cases h
    have hserve : (d.within a).serve (a + 1) m .run = some (.stepLimit, m₁) := hrun
    obtain ⟨k, hstop, rfl⟩ := stopsAt_of_serve (hnever m) hserve
    obtain rfl := hstop.eq_limit
    have hmeets : (d.within b).Meets (Request.Goal (m.steps k) .run) (m.steps k) b .stepLimit :=
      ⟨b, rfl, Nat.le_refl _⟩
    obtain ⟨j, hj, reason, hstop'⟩ := exists_stopsAt hmeets
    have hagain : (d.within b).serve (b + 1) (m.steps k) .run =
        some (reason, (m.steps k).steps j) :=
      serve_of_stopsAt (hnever _) hstop' (Nat.lt_succ_of_le hj)
    have hwhole : (d.within (k + b)).serve (k + b + 1) m .run = some (reason, m.steps (k + j)) :=
      serve_of_stopsAt (hnever m) (stopsAt_steps hstop hstop') (by omega)
    rw [Machine.steps_add] at hagain
    exact hagain.trans hwhole.symm

/-- A routine returns to a breakpoint with the last instruction of the limit: the request is
finished. A run to that breakpoint that was stopped in the routine is taken up again. -/
theorem stops_first_return :
    let m := Machine.new {} ⟨0x3000, [0x4801, 0x0000, 0xC1C0], .empty⟩
    let d : Debugger := ⟨[.pc 0x3001], some 1⟩
    (m.steps 1).callDepth ≠ 0 ∧
      d.serve d.enough (m.steps 1) .stepOut = some (.completed, (m.steps 1).steps 1) ∧
      (d.within 1).run (d.within 1).enough m = some (.stepLimit, m.steps 1) ∧
      (d.within 2).run (d.within 2).enough (m.steps 1) =
        (d.within 3).run (d.within 3).enough m := by
  intro m d
  have hdepth : (m.steps 1).callDepth ≠ 0 := by decide
  have hreturn : d.StopsAt (Request.Goal (m.steps 1) .stepOut) (m.steps 1) 1 .completed :=
    ⟨by decide, fun r hr => absurd hr (Nat.not_lt_zero _),
      not_meets_zero (by decide) (by decide)⟩
  have hlimit : (d.within 1).StopsAt (Request.Goal m .run) m 1 .stepLimit := by
    refine ⟨by decide, fun r hr => ?_, not_meets_zero (by decide) (by decide)⟩
    cases r with
    | stepLimit => exact absurd hr (Nat.lt_irrefl _)
    | _ => decide
  obtain ⟨j, -, r, hstop, hserve⟩ :=
    ((stops_first d (m.steps 1)).1 .stepOut fun _ => hdepth).2.1 1 .completed hreturn.meets
  obtain ⟨rfl, rfl⟩ := hstop.unique hreturn
  obtain ⟨j, -, r, hstop', hrun⟩ :=
    ((stops_first (d.within 1) m).1 .run fun h => by cases h).2.1 1 .stepLimit hlimit.meets
  obtain ⟨rfl, rfl⟩ := hstop'.unique hlimit
  have hstopped : (d.within 1).run (d.within 1).enough m = some (.stepLimit, m.steps 1) :=
    hrun _ (by decide)
  exact ⟨hdepth, hserve _ (by decide), hstopped, (stops_first d m).2 1 2 _ hstopped⟩

end Debugger

end Lc3
