import Mathlib
import SimplyTyped.Evaluation

/-!
# SimplyTyped.Proofs.Evaluates — reduction without fuel

`Term.Evaluates t c n v d` says that `t` reduces to `v` in `n` counted steps and moves the supply from the cursor `c`
to `d`.  It is what `Machine.reduce` computes, whatever the fuel: a machine reaches a value exactly when the relation
holds and the machine's bound allows the steps (`reduce_eq_value_iff`).  The evaluator starts such a machine.
-/

namespace SimplyTyped

namespace Term

/-- Call-by-name reduction with the steps it counts and the cursor it leaves. -/
inductive Evaluates : Term → Int → Nat → Term → Int → Prop
  | unit {c : Int} : Evaluates unit c 0 unit c
  | bool {p : Bool} {c : Int} : Evaluates (bool p) c 0 (bool p) c
  | var {x : String} {c : Int} : Evaluates (var x) c 0 (var x) c
  | abs {x : String} {ty : Ty} {body : Term} {c : Int} : Evaluates (abs x ty body) c 0 (abs x ty body) c
  /-- The guard is a literal. -/
  | branch {p : Bool} {a b v : Term} {c d : Int} {n : Nat} :
      Evaluates (if p then a else b) c n v d → Evaluates (cond (bool p) a b) c (n + 1) v d
  /-- The guard becomes a literal. -/
  | guard {g a b v : Term} {p : Bool} {c d e : Int} {n k : Nat} :
      g.truth? = none → Evaluates g c n (bool p) d → Evaluates (cond (bool p) a b) d k v e →
        Evaluates (cond g a b) c (n + 1 + k) v e
  /-- The guard is stuck. -/
  | stuckGuard {g g' a b : Term} {c d : Int} {n : Nat} :
      g.truth? = none → Evaluates g c n g' d → g'.truth? = none →
        Evaluates (cond g a b) c (n + 1) (cond g' a b) d
  /-- The function is an abstraction. -/
  | beta {x : String} {ty : Ty} {body a v : Term} {c d : Int} {n : Nat} :
      Evaluates (subst x a body c).1 (subst x a body c).2 n v d →
        Evaluates (app (abs x ty body) a) c (n + 1) v d
  /-- The function becomes an abstraction. -/
  | function {f a v body : Term} {x : String} {ty : Ty} {c d e : Int} {n k : Nat} :
      f.lambda? = none → Evaluates f c n (abs x ty body) d → Evaluates (app (abs x ty body) a) d k v e →
        Evaluates (app f a) c (n + 1 + k) v e
  /-- The function is stuck. -/
  | stuckFunction {f f' a : Term} {c d : Int} {n : Nat} :
      f.lambda? = none → Evaluates f c n f' d → f'.lambda? = none →
        Evaluates (app f a) c (n + 1) (app f' a) d

@[simp] theorem truth?_bool (p : Bool) : (bool p).truth? = some p := rfl

@[simp] theorem lambda?_abs (x : String) (ty : Ty) (body : Term) : (abs x ty body).lambda? = some (x, body) := rfl

theorem truth?_eq_some {t : Term} {p : Bool} (h : t.truth? = some p) : t = bool p := by
  cases t with
  | bool q => exact congrArg bool (Option.some.inj h)
  | unit | var | abs | cond | app => cases h

theorem lambda?_eq_some {t body : Term} {x : String} (h : t.lambda? = some (x, body)) :
    ∃ ty, t = abs x ty body := by
  cases t with
  | abs y ty b =>
    obtain ⟨rfl, rfl⟩ := Prod.mk.inj (Option.some.inj h)
    exact ⟨ty, rfl⟩
  | unit | bool | var | cond | app => cases h

end Term

namespace Machine

open Term

variable {m m' : Machine} {n k : Nat} {c d e : Int}

/-- The machine after `n` more steps, with the supply at a cursor. -/
def after (m : Machine) (cursor : Int) (n : Nat) : Machine := ⟨m.limit, cursor, m.steps + n⟩

/-- The bound, if there is one, is not passed within `n` more steps. -/
def Allows (m : Machine) (n : Nat) : Prop := n = 0 ∨ ∀ N, m.limit = some N → ((m.steps + n : Nat) : Int) ≤ N

theorem after_after (m : Machine) : (m.after c n).after d k = m.after d (n + k) := by
  simp only [after, Nat.add_assoc]

theorem tick_after (m : Machine) : m.tick.after c n = m.after c (n + 1) := by
  simp only [after, tick, Nat.add_assoc, Nat.add_comm 1]

theorem allows_of_limit (h : m.limit = none) (n : Nat) : m.Allows n :=
  .inr fun N hN => by simp [h] at hN

theorem isSpent_tick_iff (m : Machine) : m.tick.isSpent = true ↔ ¬ m.Allows 1 := by
  rw [isSpent]
  cases h : m.limit with
  | none => simp [Allows, tick, h]
  | some N => simp [Allows, tick, h]

theorem allows_add_iff : m.Allows (n + k) ↔ m.Allows n ∧ (m.after c n).Allows k := by
  unfold Allows after
  dsimp only
  constructor
  · rintro (h | h)
    · exact ⟨.inl (by omega), .inl (by omega)⟩
    · exact ⟨.inr fun N hN => by have := h N hN; omega, .inr fun N hN => by have := h N hN; omega⟩
  · rintro ⟨hn, hk⟩
    rcases hk with rfl | hk
    · exact hn
    · exact .inr fun N hN => by have := hk N hN; omega

theorem allows_succ_iff : m.Allows (n + 1) ↔ ¬ m.tick.isSpent = true ∧ m.tick.Allows n := by
  rw [Nat.add_comm, allows_add_iff (c := m.cursor), isSpent_tick_iff, not_not]
  rfl

/-- A machine that reaches a value has found a reduction and was allowed its steps. -/
theorem evaluates_of_reduce {fuel : Nat} {t v : Term} (h : reduce fuel t m = (.value v, m')) :
    ∃ n d, Evaluates t m.cursor n v d ∧ m.Allows n ∧ m' = m.after d n := by
  fun_induction reduce fuel t m generalizing v m'
  case case1 | case2 | case6 | case7 | case8 | case12 | case13 => cases h
  case case3 fuel g a b m hs p hg ih =>
    obtain rfl := truth?_eq_some hg
    obtain ⟨n, d, he, ha, rfl⟩ := ih h
    exact ⟨n + 1, d, .branch he, allows_succ_iff.mpr ⟨hs, ha⟩, tick_after m⟩
  case case4 fuel g a b m hs hg g' m₁ hr hg' ih ih' =>
    obtain ⟨p, hp⟩ := Option.isSome_iff_exists.mp hg'
    obtain rfl := truth?_eq_some hp
    obtain ⟨n, d, he, ha, rfl⟩ := ih hr
    obtain ⟨k, e, he', hk, rfl⟩ := ih' h
    rw [tick_after] at hk he' ⊢
    exact ⟨n + 1 + k, e, .guard hg he he', allows_add_iff.mpr ⟨allows_succ_iff.mpr ⟨hs, ha⟩, hk⟩, after_after m⟩
  case case5 fuel g a b m hs hg g' m₁ hr hg' ih =>
    obtain ⟨hv, rfl⟩ := Prod.mk.inj h
    obtain rfl := Verdict.value.inj hv
    obtain ⟨n, d, he, ha, rfl⟩ := ih hr
    rw [Bool.not_eq_true, Option.isSome_eq_false_iff, Option.isNone_iff_eq_none] at hg'
    exact ⟨n + 1, d, .stuckGuard hg he hg', allows_succ_iff.mpr ⟨hs, ha⟩, tick_after m⟩
  case case9 fuel f a m hs x body hf r ih =>
    obtain ⟨ty, rfl⟩ := lambda?_eq_some hf
    obtain ⟨n, d, he, ha, rfl⟩ := ih h
    exact ⟨n + 1, d, .beta he, allows_succ_iff.mpr ⟨hs, ha⟩, tick_after m⟩
  case case10 fuel f a m hs hf f' m₁ hr hf' ih ih' =>
    obtain ⟨l, hl⟩ := Option.isSome_iff_exists.mp hf'
    obtain ⟨ty, rfl⟩ := lambda?_eq_some hl
    obtain ⟨n, d, he, ha, rfl⟩ := ih hr
    obtain ⟨k, e, he', hk, rfl⟩ := ih' h
    rw [tick_after] at hk he' ⊢
    exact ⟨n + 1 + k, e, .function hf he he', allows_add_iff.mpr ⟨allows_succ_iff.mpr ⟨hs, ha⟩, hk⟩, after_after m⟩
  case case11 fuel f a m hs hf f' m₁ hr hf' ih =>
    obtain ⟨hv, rfl⟩ := Prod.mk.inj h
    obtain rfl := Verdict.value.inj hv
    obtain ⟨n, d, he, ha, rfl⟩ := ih hr
    rw [Bool.not_eq_true, Option.isSome_eq_false_iff, Option.isNone_iff_eq_none] at hf'
    exact ⟨n + 1, d, .stuckFunction hf he hf', allows_succ_iff.mpr ⟨hs, ha⟩, tick_after m⟩
  case case14 | case15 | case16 | case17 =>
    obtain ⟨hv, rfl⟩ := Prod.mk.inj h
    obtain rfl := Verdict.value.inj hv
    exact ⟨0, _, by constructor, .inl rfl, rfl⟩

/-- A machine that is allowed the steps of a reduction finds it, given fuel enough. -/
theorem exists_reduce_of_evaluates {t v : Term} (he : Evaluates t c n v d) {m : Machine} (hc : m.cursor = c)
    (ha : m.Allows n) : ∃ fuel, reduce fuel t m = (.value v, m.after d n) := by
  induction he generalizing m with
  | unit | bool | var | abs =>
    subst hc
    exact ⟨1, rfl⟩
  | branch _ ih =>
    obtain ⟨hs, ha⟩ := allows_succ_iff.mp ha
    obtain ⟨f, hf⟩ := ih (m := m.tick) hc ha
    refine ⟨f + 1, ?_⟩
    rw [reduce, if_neg hs]
    exact hf.trans (by rw [tick_after])
  | @guard g a b v p c d e n k hg _ _ ih ih' =>
    obtain ⟨ha, hk⟩ := (allows_add_iff (c := d)).mp ha
    obtain ⟨hs, ha⟩ := allows_succ_iff.mp ha
    obtain ⟨f, hf⟩ := ih (m := m.tick) hc ha
    obtain ⟨f', hf'⟩ := ih' (m := m.after d (n + 1)) rfl hk
    refine ⟨max f f' + 1, ?_⟩
    rw [reduce, if_neg hs]
    simp only [hg, reduce_of_le (le_max_left f f') hf (by simp), truth?_bool, Option.isSome_some, if_true, tick_after]
    rw [reduce_of_le (le_max_right f f') hf' (by simp), after_after]
  | @stuckGuard g g' a b c d n hg _ hg' ih =>
    obtain ⟨hs, ha⟩ := allows_succ_iff.mp ha
    obtain ⟨f, hf⟩ := ih (m := m.tick) hc ha
    refine ⟨f + 1, ?_⟩
    rw [reduce, if_neg hs]
    simp [hg, hf, hg', tick_after]
  | @beta x ty body a v c d n _ ih =>
    obtain ⟨hs, ha⟩ := allows_succ_iff.mp ha
    subst hc
    obtain ⟨f, hf⟩ := ih (m := (m.tick.subst x a body).2) rfl ha
    refine ⟨f + 1, ?_⟩
    rw [reduce, if_neg hs]
    exact hf.trans (congrArg _ (tick_after m))
  | @function f a v body x ty c d e n k hf _ _ ih ih' =>
    obtain ⟨ha, hk⟩ := (allows_add_iff (c := d)).mp ha
    obtain ⟨hs, ha⟩ := allows_succ_iff.mp ha
    obtain ⟨j, hj⟩ := ih (m := m.tick) hc ha
    obtain ⟨j', hj'⟩ := ih' (m := m.after d (n + 1)) rfl hk
    refine ⟨max j j' + 1, ?_⟩
    rw [reduce, if_neg hs]
    simp only [hf, reduce_of_le (le_max_left j j') hj (by simp), lambda?_abs, Option.isSome_some, if_true, tick_after]
    rw [reduce_of_le (le_max_right j j') hj' (by simp), after_after]
  | @stuckFunction f f' a c d n hf _ hf' ih =>
    obtain ⟨hs, ha⟩ := allows_succ_iff.mp ha
    obtain ⟨j, hj⟩ := ih (m := m.tick) hc ha
    refine ⟨j + 1, ?_⟩
    rw [reduce, if_neg hs]
    simp [hf, hj, hf', tick_after]

/-- A machine that gives up has passed its bound. -/
theorem isSpent_of_exceeded {fuel : Nat} {t u : Term} (h : reduce fuel t m = (.exceeded u, m')) :
    m'.isSpent = true := by
  fun_induction reduce fuel t m generalizing u m'
  case case1 | case5 | case7 | case11 | case13 | case14 | case15 | case16 | case17 => cases h
  case case2 hs | case8 hs => exact (Prod.mk.inj h).2 ▸ hs
  case case3 ih | case9 ih => exact ih h
  case case4 ih | case10 ih => exact ih h
  case case6 hr ih | case12 hr ih => exact (Prod.mk.inj h).2 ▸ ih hr

/-- Without a bound only fuel can keep a machine from a value. -/
theorem exists_value_of_limit {fuel : Nat} {t : Term} (hl : m.limit = none)
    (h : (reduce fuel t m).1 ≠ .outOfFuel) : ∃ v m', reduce fuel t m = (.value v, m') := by
  rcases hr : reduce fuel t m with ⟨w, m'⟩
  rw [hr] at h
  cases w with
  | value v => exact ⟨v, m', rfl⟩
  | outOfFuel => exact absurd rfl h
  | exceeded u =>
    have hm : m'.limit = none := (limit_of_reduce hr).trans hl
    have hs := isSpent_of_exceeded hr
    simp [isSpent, hm] at hs

/-- **A machine reaches the values of the relation, within its bound.** -/
theorem reduce_eq_value_iff {t v : Term} :
    (∃ fuel, reduce fuel t m = (.value v, m')) ↔
      ∃ n d, Evaluates t m.cursor n v d ∧ m.Allows n ∧ m' = m.after d n := by
  constructor
  · rintro ⟨fuel, h⟩
    exact evaluates_of_reduce h
  · rintro ⟨n, d, he, ha, rfl⟩
    exact exists_reduce_of_evaluates he rfl ha

/-- With a bound the fuel of the machine is enough. -/
theorem run_of_evaluates {t v : Term} {N : Int} (hl : m.limit = some N) (he : Evaluates t m.cursor n v d)
    (ha : m.Allows n) (fuel : Nat) : m.run fuel t = (.value v, m.after d n) := by
  obtain ⟨k, hk⟩ := exists_reduce_of_evaluates he rfl ha
  have hne : (m.run fuel t).1 ≠ .outOfFuel := run_ne_outOfFuel hl
  rw [run] at hne ⊢
  rcases Nat.le_total k (fuelFor m.limit fuel) with hle | hle
  · exact reduce_of_le hle hk (by simp)
  · exact (reduce_of_le hle rfl hne).symm.trans hk

/-- A machine that is allowed the steps of a reduction comes to its end, with a bound whatever the fuel. -/
theorem exists_run_of_evaluates {t v : Term} (he : Evaluates t m.cursor n v d) (ha : m.Allows n) :
    ∃ depth, ∀ fuel, depth ≤ fuel → m.run fuel t = (.value v, m.after d n) := by
  cases hl : m.limit with
  | none =>
    obtain ⟨depth, hd⟩ := exists_reduce_of_evaluates he rfl ha
    refine ⟨depth, fun fuel hle => ?_⟩
    rw [run, hl]
    exact reduce_of_le hle hd (by simp)
  | some N => exact ⟨0, fun fuel _ => run_of_evaluates hl he ha fuel⟩

end Machine

/-! ## The evaluator -/

open Term

variable {t v : Term} {n : Nat} {d : Int}

theorem evaluate_eq_ok_iff {fuel : Nat} {limit : Option Int} :
    evaluate fuel limit t = .ok (v, n) ↔ ∃ m, (Machine.start limit).run fuel t = (.value v, m) ∧ m.steps = n := by
  rw [evaluate]
  rcases (Machine.start limit).run fuel t with ⟨w, m⟩
  cases w <;> simp [Verdict.toExcept, Except.map]

/-- From the start a bound allows as many steps as it says, and a negative one allows none. -/
theorem Machine.allows_start_iff {limit : Option Int} :
    (Machine.start limit).Allows n ↔ ∀ N, limit = some N → (n : Int) ≤ max N 0 := by
  unfold Allows Machine.start
  simp only [Nat.zero_add]
  constructor
  · rintro (rfl | h) N hN
    · exact le_max_right N 0
    · exact (h N hN).trans (le_max_left N 0)
  · intro h
    by_cases hn : n = 0
    · exact .inl hn
    · exact .inr fun N hN => by have := h N hN; omega

/-- The evaluator answers with values that are reached within its bound. -/
theorem within_of_evaluate {fuel : Nat} {limit : Option Int} (h : evaluate fuel limit t = .ok (v, n)) :
    (∃ d, Evaluates t 0 n v d) ∧ ∀ N, limit = some N → (n : Int) ≤ max N 0 := by
  obtain ⟨m, hm, rfl⟩ := evaluate_eq_ok_iff.mp h
  obtain ⟨n, d, he, ha, rfl⟩ := Machine.evaluates_of_reduce hm
  simp only [Machine.after, Machine.start, Nat.zero_add]
  exact ⟨⟨d, he⟩, Machine.allows_start_iff.mp ha⟩

theorem evaluates_of_evaluate {fuel : Nat} {limit : Option Int} (h : evaluate fuel limit t = .ok (v, n)) :
    ∃ d, Evaluates t 0 n v d :=
  (within_of_evaluate h).1

/-- The evaluator finds a reduction when its bound allows the steps, and a negative bound counts as none. -/
theorem evaluate_of_evaluates_max {N : Int} (he : Evaluates t 0 n v d) (hN : (n : Int) ≤ max N 0) (fuel : Nat) :
    evaluate fuel (some N) t = .ok (v, n) := by
  have ha : (Machine.start (some N)).Allows n := Machine.allows_start_iff.mpr fun N' h => by
    obtain rfl := Option.some.inj h
    exact hN
  refine evaluate_eq_ok_iff.mpr ⟨_, Machine.run_of_evaluates rfl he ha fuel, ?_⟩
  simp [Machine.after, Machine.start]

/-- The evaluator finds a reduction when its bound is not below the steps. -/
theorem evaluate_of_evaluates {N : Int} (he : Evaluates t 0 n v d) (hN : (n : Int) ≤ N) (fuel : Nat) :
    evaluate fuel (some N) t = .ok (v, n) :=
  evaluate_of_evaluates_max he (hN.trans (le_max_left N 0)) fuel

/-- With enough fuel the evaluator answers with every value that is reached within its bound. -/
theorem exists_evaluate_of_within {limit : Option Int} (he : Evaluates t 0 n v d)
    (hN : ∀ N, limit = some N → (n : Int) ≤ max N 0) :
    ∃ depth, ∀ fuel, depth ≤ fuel → evaluate fuel limit t = .ok (v, n) := by
  have ha : (Machine.start limit).Allows n := Machine.allows_start_iff.mpr hN
  obtain ⟨depth, h⟩ := Machine.exists_run_of_evaluates he ha
  refine ⟨depth, fun fuel hle => evaluate_eq_ok_iff.mpr ⟨_, h fuel hle, ?_⟩⟩
  simp [Machine.after, Machine.start]

/-- Without a bound the evaluator finds a reduction when its fuel is enough for the depth of the recursion. -/
theorem exists_evaluate_of_evaluates (he : Evaluates t 0 n v d) :
    ∃ depth, ∀ fuel, depth ≤ fuel → evaluate fuel none t = .ok (v, n) :=
  exists_evaluate_of_within he fun _ h => by cases h

/-- The evaluator without a bound comes to a value in a number of steps, once the fuel is enough for the depth of the
recursion. -/
def Returns (t v : Term) (n : Nat) : Prop := ∃ depth, ∀ fuel, depth ≤ fuel → evaluate fuel none t = .ok (v, n)

theorem returns_iff_evaluates : Returns t v n ↔ ∃ d, Evaluates t 0 n v d := by
  constructor
  · rintro ⟨depth, h⟩
    exact evaluates_of_evaluate (h depth le_rfl)
  · rintro ⟨d, he⟩
    exact exists_evaluate_of_evaluates he

/-- With a bound an evaluation ends, whatever the fuel. -/
theorem evaluate_ne_outOfFuel (N : Int) (fuel : Nat) (t : Term) : evaluate fuel (some N) t ≠ .error .outOfFuel := by
  have hne : ((Machine.start (some N)).run fuel t).1 ≠ .outOfFuel := Machine.run_ne_outOfFuel rfl
  rw [evaluate]
  cases hr : ((Machine.start (some N)).run fuel t).1 with
  | outOfFuel => exact absurd hr hne
  | value v => simp [Verdict.toExcept, Except.map]
  | exceeded u => simp [Verdict.toExcept, Except.map]

end SimplyTyped
