import SimplyTyped.Proofs.Lifetime

/-!
# SimplyTyped.Proofs.WeakHeadNormal — where reductions stop, and that they stay there

A reduction stops at literals, abstractions and variables, at conditionals with a guard that has itself stopped and is
no literal, and at applications of a function that has itself stopped and is no abstraction: at the weak head normal
forms.  They are the terms without a head redex (`Term.contract_eq_none_iff`).  A reduction that begins at one of them
looks at each guard and each function down to its head, finds nothing to contract and comes back with the same term;
each look is a step, and no name is drawn (`run_weakHeadNormal`).
-/

namespace SimplyTyped

namespace Term

/-- Weak head normal forms. -/
inductive WeakHeadNormal : Term → Prop
  | unit : WeakHeadNormal unit
  | bool {p : Bool} : WeakHeadNormal (bool p)
  | var {x : String} : WeakHeadNormal (var x)
  | abs {x : String} {S : Ty} {body : Term} : WeakHeadNormal (abs x S body)
  /-- The guard is stuck. -/
  | cond {g a b : Term} : WeakHeadNormal g → (∀ p, g ≠ bool p) → WeakHeadNormal (cond g a b)
  /-- The function is stuck. -/
  | app {f a : Term} : WeakHeadNormal f → (∀ x S body, f ≠ abs x S body) → WeakHeadNormal (app f a)

/-- The guards and functions on the way down to the head of a term, the outermost first. -/
def heads : Term → List Term
  | cond g _ _ => g :: g.heads
  | app f _ => f :: f.heads
  | _ => []

variable {t v : Term} {c : Int}

theorem truth?_eq_none_iff : t.truth? = none ↔ ∀ p, t ≠ bool p := by
  cases t <;> simp [truth?]

theorem lambda?_eq_none_iff : t.lambda? = none ↔ ∀ x S body, t ≠ abs x S body := by
  cases t <;> simp [lambda?]

/-- **The weak head normal forms are the terms without a head redex.** -/
theorem contract_eq_none_iff : v.contract c = none ↔ v.WeakHeadNormal := by
  induction v with
  | unit => exact iff_of_true rfl .unit
  | bool p => exact iff_of_true rfl .bool
  | var x => exact iff_of_true rfl .var
  | abs x S body => exact iff_of_true rfl .abs
  | cond g a b ihg _ _ =>
    rw [contract_cond_eq_none_iff, truth?_eq_none_iff, ihg]
    constructor
    · rintro ⟨hp, hg⟩
      exact .cond hg hp
    · rintro (_ | _ | _ | _ | ⟨hg, hp⟩)
      exact ⟨hp, hg⟩
  | app f a ihf _ =>
    rw [contract_app_eq_none_iff, lambda?_eq_none_iff, ihf]
    constructor
    · rintro ⟨hl, hf⟩
      exact .app hf hl
    · rintro (_ | _ | _ | _ | _ | ⟨hf, hl⟩)
      exact ⟨hl, hf⟩

/-- No redex cuts short the way down to the head of a weak head normal form. -/
theorem WeakHeadNormal.headDepth_eq (h : v.WeakHeadNormal) : v.headDepth = v.heads.length := by
  induction h with
  | unit | bool | var | abs => rfl
  | cond _ hp ih => rw [headDepth_cond_of_none (truth?_eq_none_iff.mpr hp), ih, heads, List.length_cons]
  | app _ hl ih => rw [headDepth_app_of_none (lambda?_eq_none_iff.mpr hl), ih, heads, List.length_cons]

theorem WeakHeadNormal.evaluates (h : v.WeakHeadNormal) (c : Int) : Evaluates v c v.heads.length v c := by
  rw [← h.headDepth_eq]
  exact evaluates_self (contract_eq_none_iff.mpr h)

theorem Evaluates.weakHeadNormal {d : Int} {n : Nat} (h : Evaluates t c n v d) : v.WeakHeadNormal := by
  obtain ⟨rs, -, hv, -⟩ := h.contracts
  exact contract_eq_none_iff.mp hv

end Term

open Term

/-- **Reductions stop at weak head normal forms, and at these they stop at once.**  From whatever machine and under
whatever bound, a value is a weak head normal form.  A machine that is asked to reduce one, and whose bound allows a
step for each guard and function down to the head, comes back with it; it has counted these steps, its cursor is where
it was, and it has drawn no name.  So the value of an evaluation evaluates to itself. -/
theorem run_weakHeadNormal :
    (∀ (m m' : Machine) (fuel : Nat) (t v : Term), m.run fuel t = (.value v, m') → v.WeakHeadNormal) ∧
    (∀ (v : Term) (m : Machine), v.WeakHeadNormal → m.Allows v.heads.length →
      ∃ depth, ∀ fuel, depth ≤ fuel →
        m.run fuel v = (.value v, { m with steps := m.steps + v.heads.length }) ∧
        Machine.draws (Machine.fuelFor m.limit fuel) v m = []) ∧
    ∀ (fuel : Nat) (limit : Option Int) (t v : Term) (n : Nat), evaluate fuel limit t = .ok (v, n) →
      Returns v v v.heads.length := by
  refine ⟨?_, ?_, ?_⟩
  · intro m m' fuel t v h
    obtain ⟨n, d, he, -⟩ := Machine.evaluates_of_reduce h
    exact he.weakHeadNormal
  · intro v m hv ha
    obtain ⟨depth, hd⟩ := Machine.exists_run_of_evaluates (hv.evaluates m.cursor) ha
    refine ⟨depth, fun fuel hle => ⟨hd fuel hle, ?_⟩⟩
    have hs := Machine.handsOut_draws (Machine.fuelFor m.limit fuel) v m
    have hr : Machine.reduce (Machine.fuelFor m.limit fuel) v m = _ := hd fuel hle
    rw [hr] at hs
    exact hs.eq_nil
  · intro fuel limit t v n h
    obtain ⟨d, he⟩ := evaluates_of_evaluate h
    exact returns_iff_evaluates.mpr ⟨0, he.weakHeadNormal.evaluates 0⟩

/-- A stuck guard that is the head of a function, in a machine that has been at work before. -/
theorem run_weakHeadNormal_of_stuck_guard :
    let v : Term := .app (.cond (.app (.var "#7") .unit) (.abs "x" .bool (.var "x")) (.var "#7")) (.bool true)
    let m : Machine := ⟨some 9, 7, 6⟩
    v.WeakHeadNormal ∧ v.heads.length = 3 ∧ m.Allows v.heads.length ∧
      ((∃ depth, ∀ fuel, depth ≤ fuel → m.run fuel v = (.value v, ⟨some 9, 7, 9⟩) ∧
        Machine.draws (Machine.fuelFor m.limit fuel) v m = []) ∧
      (evaluate 0 (some 3) v = .ok (v, 3) ∧ Returns v v v.heads.length)) := by
  intro v m
  have hv : v.WeakHeadNormal :=
    .app (.cond (.app .var (by simp)) (by simp)) (by simp)
  have ha : m.Allows v.heads.length := .inr fun N hN => by
    obtain rfl := Option.some.inj hN
    decide
  have he : evaluate 0 (some 3) v = .ok (v, 3) := evaluate_of_evaluates (hv.evaluates 0) (by decide) 0
  obtain ⟨-, hrun, hself⟩ := run_weakHeadNormal
  exact ⟨hv, rfl, ha, hrun v m hv ha, he, hself 0 (some 3) v v 3 he⟩

end SimplyTyped
