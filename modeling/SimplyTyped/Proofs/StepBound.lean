import SimplyTyped.Proofs.Evaluates

/-!
# SimplyTyped.Proofs.StepBound — a bound on the steps decides when to give up, and nothing else

One count runs through a reduction and the reductions nested in it, and a machine looks at its bound each time that it
counts.  As long as it goes on the count is within the bound (`Machine.steps_le_of_value`), so when it gives up, at
whatever depth, the count has just gone one past the bound (`Machine.steps_of_exceeded`).  What it has found until then
does not depend on the bound: an evaluation with a bound answers as the one without does, or it is given up
(`bounded_evaluate`).
-/

namespace SimplyTyped

namespace Machine

variable {fuel : Nat} {t u v : Term} {m m' : Machine} {N : Int}

/-- A value is reached within the bound, when the count was within it before. -/
theorem steps_le_of_value (hl : m.limit = some N) (h : reduce fuel t m = (.value v, m')) (hm : m.steps ≤ N.toNat) :
    m'.steps ≤ N.toNat := by
  obtain ⟨n, d, -, ha, rfl⟩ := evaluates_of_reduce h
  rcases ha with rfl | ha
  · exact hm
  · have hn := ha N hl
    simp only [after]
    omega

/-- The step at which a machine finds its bound passed is the first one past it, or the first one of all when the bound
had been passed before. -/
theorem steps_of_isSpent (hl : m.limit = some N) (hs : m.tick.isSpent = true) :
    m.tick.steps = max N.toNat m.steps + 1 := by
  have hN : N < ((m.steps + 1 : Nat) : Int) := by simpa [isSpent, tick, hl] using hs
  simp only [tick]
  omega

/-- **A machine that gives up has counted one step past its bound**, also when it gives up in a nested reduction. -/
theorem steps_of_exceeded (hl : m.limit = some N) (h : reduce fuel t m = (.exceeded u, m')) :
    m'.steps = max N.toNat m.steps + 1 := by
  fun_induction reduce fuel t m generalizing u m'
  case case1 | case5 | case7 | case11 | case13 | case14 | case15 | case16 | case17 => cases h
  case case2 hs | case8 hs =>
    obtain ⟨-, rfl⟩ := Prod.mk.inj h
    exact steps_of_isSpent hl hs
  -- the reduction goes on with a count that is still within the bound
  case case3 fuel g a b m hs p hg ih | case9 fuel f a m hs x body hf r ih =>
    have hm : m.steps + 1 ≤ N.toNat := tick_steps_le hl hs
    have hu : m'.steps = max N.toNat (m.steps + 1) + 1 := ih hl h
    omega
  case case4 fuel g a b m hs hg g' m₁ hr hg' ih ih' | case10 fuel f a m hs hf f' m₁ hr hf' ih ih' =>
    have hm : m.steps + 1 ≤ N.toNat := tick_steps_le hl hs
    have hm₁ := steps_le_of_value (m := m.tick) hl hr hm
    have hu := ih' ((limit_of_reduce hr).trans hl) h
    omega
  case case6 fuel g a b m hs hg w m₁ hr ih | case12 fuel f a m hs hf w m₁ hr ih =>
    obtain ⟨-, rfl⟩ := Prod.mk.inj h
    have hm : m.steps + 1 ≤ N.toNat := tick_steps_le hl hs
    have hu : m₁.steps = max N.toNat (m.steps + 1) + 1 := ih hl hr
    omega

end Machine

/-! ## The evaluator -/

variable {t v : Term} {N : Int} {n : Nat}

/-- The evaluator answers within a bound what it answers without one, when the steps are within the bound.  A negative
bound allows no step. -/
theorem evaluate_eq_ok_iff_returns {fuel : Nat} :
    evaluate fuel (some N) t = .ok (v, n) ↔ Returns t v n ∧ (n : Int) ≤ max N 0 := by
  rw [returns_iff_evaluates]
  constructor
  · intro h
    obtain ⟨he, hn⟩ := within_of_evaluate h
    exact ⟨he, hn N rfl⟩
  · rintro ⟨⟨d, he⟩, hn⟩
    exact evaluate_of_evaluates_max he hn fuel

/-- An evaluation that does not answer within its bound is given up one step past it. -/
theorem evaluate_of_not_returns (fuel : Nat) (h : ¬ ∃ v n, Returns t v n ∧ (n : Int) ≤ max N 0) :
    ∃ u, evaluate fuel (some N) t = .error (.stepLimit u N) ∧
      (((Machine.start (some N)).run fuel t).2.steps : Int) = max N 0 + 1 := by
  have hne : ((Machine.start (some N)).run fuel t).1 ≠ .outOfFuel := Machine.run_ne_outOfFuel rfl
  cases hr : (Machine.start (some N)).run fuel t with
  | mk w m =>
    rw [hr] at hne
    cases w with
    | outOfFuel => exact absurd rfl hne
    | value v =>
      have hv : evaluate fuel (some N) t = .ok (v, m.steps) := evaluate_eq_ok_iff.mpr ⟨m, hr, rfl⟩
      exact absurd ⟨v, m.steps, evaluate_eq_ok_iff_returns.mp hv⟩ h
    | exceeded u =>
      have hs : m.steps = max N.toNat 0 + 1 := Machine.steps_of_exceeded (m := Machine.start (some N)) rfl hr
      refine ⟨u, ?_, ?_⟩
      · rw [evaluate, hr]
        rfl
      · dsimp only
        omega

/-- What a bound on the steps is for the evaluation of a term. -/
structure Bounded (t : Term) (N : Int) : Prop where
  /-- The answers are those of the evaluation without a bound, as far as they take no more steps than the bound
  allows; a negative bound allows none. -/
  answers : ∀ fuel v n, evaluate fuel (some N) t = .ok (v, n) ↔ Returns t v n ∧ (n : Int) ≤ max N 0
  /-- In every other case the evaluation is given up with a notice, and one step past the bound was counted. -/
  givesUp : ∀ fuel, (¬ ∃ v n, Returns t v n ∧ (n : Int) ≤ max N 0) →
    ∃ u notice, evaluate fuel (some N) t = .error (.stepLimit u N) ∧
      (Failure.stepLimit u N).notice? = some notice ∧
      notice.message = "'" ++ u.layout false ++ "' did not reach a value within " ++ N.repr ++ " steps" ∧
      (((Machine.start (some N)).run fuel t).2.steps : Int) = max N 0 + 1
  /-- A higher bound changes no answer. -/
  raised : ∀ M fuel fuel' v n, N ≤ M → evaluate fuel (some N) t = .ok (v, n) → evaluate fuel' (some M) t = .ok (v, n)

/-- **A bound on the steps changes nothing but when to give up.** -/
theorem bounded_evaluate (t : Term) (N : Int) : Bounded t N where
  answers fuel v n := evaluate_eq_ok_iff_returns
  givesUp fuel h := by
    obtain ⟨u, hu, hs⟩ := evaluate_of_not_returns fuel h
    refine ⟨u, _, hu, rfl, ?_, hs⟩
    simp [Notice.message, Notice.styledMessage, Notice.about, Fragment.inStyle, Fragment.wording, Fragment.excerpt,
      String.join, String.append_assoc]
  raised M fuel fuel' v n hle h := by
    obtain ⟨hr, hn⟩ := evaluate_eq_ok_iff_returns.mp h
    exact evaluate_eq_ok_iff_returns.mpr ⟨hr, hn.trans (max_le_max_right 0 hle)⟩

end SimplyTyped
