import SimplyTyped.Proofs.NamelessStep

/-!
# SimplyTyped.Proofs.NamelessReduction — the machine without the names of bound variables

`Nameless.reduce` is the machine of `SimplyTyped.Reduction` on nameless terms: the same loop with the same count and
bound, but it draws no names, and an argument is put in by `Nameless.inst`, which cannot capture.  From a harmless
term the two machines run in step, whatever the fuel and the bound (`Machine.reduce_nameless`).

So the names of bound variables play no part in a run.  Which binders are renamed, and when, differs between two
terms that are alpha-equivalent, but both runs are the run of the one nameless term (`evaluate_respects_alpha`).
-/

namespace SimplyTyped

namespace Nameless

/-- How a reduction of a nameless term ends. -/
inductive Verdict where
  | value (t : Nameless)
  | exceeded (t : Nameless)
  | outOfFuel
  deriving DecidableEq

/-- Reduces a nameless term until no rule applies, from a number of steps on that were counted before. -/
def reduce (limit : Option Int) : (fuel : Nat) → Nameless → (steps : Nat) → Verdict × Nat
  | 0, _, n => (.outOfFuel, n)
  | fuel + 1, .cond g a b, n =>
    if Machine.isSpent ⟨limit, 0, n + 1⟩ then (.exceeded (.cond g a b), n + 1)
    else
      match g.truth? with
      | some p => reduce limit fuel (if p then a else b) (n + 1)
      | none =>
        match reduce limit fuel g (n + 1) with
        | (.value g', k) =>
          if g'.truth?.isSome then reduce limit fuel (.cond g' a b) k else (.value (.cond g' a b), k)
        | (.exceeded t, k) => (.exceeded t, k)
        | (.outOfFuel, k) => (.outOfFuel, k)
  | fuel + 1, .app f a, n =>
    if Machine.isSpent ⟨limit, 0, n + 1⟩ then (.exceeded (.app f a), n + 1)
    else
      match f.lambda? with
      | some body => reduce limit fuel (body.inst [a] 0) (n + 1)
      | none =>
        match reduce limit fuel f (n + 1) with
        | (.value f', k) =>
          if f'.lambda?.isSome then reduce limit fuel (.app f' a) k else (.value (.app f' a), k)
        | (.exceeded t, k) => (.exceeded t, k)
        | (.outOfFuel, k) => (.outOfFuel, k)
  | _ + 1, t, n => (.value t, n)

end Nameless

/-- The verdict without the names of bound variables. -/
def Verdict.nameless : Verdict → Nameless.Verdict
  | value t => .value (t.nameless [])
  | exceeded t => .exceeded (t.nameless [])
  | outOfFuel => .outOfFuel

namespace Machine

open Term

variable {fuel : Nat} {t v : Term} {m m' : Machine}

/-- What a machine does to reach a value are contractions, from its cursor to the one that it leaves. -/
theorem contracts_of_reduce (h : reduce fuel t m = (.value v, m')) : ∃ rs, Contracts t m.cursor rs v m'.cursor := by
  obtain ⟨n, d, he, -, rfl⟩ := evaluates_of_reduce h
  obtain ⟨rs, hrs, -, -⟩ := he.contracts
  exact ⟨rs, hrs⟩

/-- **The machine runs in step with its nameless form**, from every harmless term. -/
theorem reduce_nameless (h : t.Harmless m.cursor) :
    Nameless.reduce m.limit fuel (t.nameless []) m.steps =
      ((reduce fuel t m).1.nameless, (reduce fuel t m).2.steps) := by
  fun_induction reduce fuel t m with
  | case1 => rfl
  | case2 fuel g a b m hs => exact if_pos hs
  | case3 fuel g a b m hs p hg ih =>
    obtain rfl := truth?_eq_some hg
    have hr : (if p then a else b).Harmless m.cursor :=
      h.of_contract (contract_cond_eq_some_iff.mpr (.inl ⟨p, rfl, rfl⟩))
    refine (if_neg hs).trans (Eq.trans ?_ (ih hr))
    cases p <;> rfl
  | case4 fuel g a b m hs hg g' m₁ hr hg' ih ih' =>
    -- the guard has become a literal; with that in its place the term is harmless where the machine is now
    have hn : Nameless.reduce m.limit fuel (g.nameless []) (m.steps + 1) = _ := ih h.guard
    obtain ⟨rs, hrs⟩ := contracts_of_reduce hr
    have hl : m₁.limit = m.limit := (limit_of_reduce hr).trans rfl
    refine (if_neg hs).trans ?_
    rw [truth?_nameless, hg, hn, hr, ← hl]
    exact (if_pos (by rwa [truth?_nameless])).trans (ih' ((hrs.cond a b).harmless h))
  | case5 fuel g a b m hs hg g' m₁ hr hg' ih =>
    have hn : Nameless.reduce m.limit fuel (g.nameless []) (m.steps + 1) = _ := ih h.guard
    refine (if_neg hs).trans ?_
    rw [truth?_nameless, hg, hn, hr]
    exact if_neg (by rwa [truth?_nameless])
  | case6 fuel g a b m hs hg u m₁ hr ih | case7 fuel g a b m hs hg m₁ hr ih =>
    have hn : Nameless.reduce m.limit fuel (g.nameless []) (m.steps + 1) = _ := ih h.guard
    refine (if_neg hs).trans ?_
    rw [truth?_nameless, hg, hn, hr]
    rfl
  | case8 fuel f a m hs => exact if_pos hs
  | case9 fuel f a m hs x body hf r ih =>
    obtain ⟨ty, rfl⟩ := lambda?_eq_some hf
    have hr : r.1.Harmless r.2.cursor :=
      h.of_contract (contract_app_eq_some_iff.mpr (.inl ⟨x, ty, body, rfl, rfl⟩))
    -- the one place where a name is drawn: the contractum is right, whatever binders were renamed
    refine (if_neg hs).trans (Eq.trans ?_ (ih hr))
    exact congrArg (fun u => Nameless.reduce m.limit fuel u (m.steps + 1)) h.nameless_subst.symm
  | case10 fuel f a m hs hf f' m₁ hr hf' ih ih' =>
    have hn : Nameless.reduce m.limit fuel (f.nameless []) (m.steps + 1) = _ := ih h.function
    obtain ⟨rs, hrs⟩ := contracts_of_reduce hr
    have hl : m₁.limit = m.limit := (limit_of_reduce hr).trans rfl
    refine (if_neg hs).trans ?_
    rw [lambda?_nameless, hf, Option.map_none, hn, hr, ← hl]
    exact (if_pos (by rwa [lambda?_nameless, Option.isSome_map])).trans (ih' ((hrs.app a).harmless h))
  | case11 fuel f a m hs hf f' m₁ hr hf' ih =>
    have hn : Nameless.reduce m.limit fuel (f.nameless []) (m.steps + 1) = _ := ih h.function
    refine (if_neg hs).trans ?_
    rw [lambda?_nameless, hf, Option.map_none, hn, hr]
    exact if_neg (by rwa [lambda?_nameless, Option.isSome_map])
  | case12 fuel f a m hs hf u m₁ hr ih | case13 fuel f a m hs hf m₁ hr ih =>
    have hn : Nameless.reduce m.limit fuel (f.nameless []) (m.steps + 1) = _ := ih h.function
    refine (if_neg hs).trans ?_
    rw [lambda?_nameless, hf, Option.map_none, hn, hr]
    rfl
  | case14 | case15 | case16 | case17 => rfl

end Machine

/-! ## The evaluator -/

open Term

/-- The machine of nameless terms with nothing counted yet, and with fuel enough for the bound. -/
def Nameless.run (limit : Option Int) (fuel : Nat) (t : Nameless) : Nameless.Verdict × Nat :=
  reduce limit (Machine.fuelFor limit fuel) t 0

/-- Two evaluations that end alike: after as many steps with values that are alpha-equivalent, or both without a
value, given up at the same bound or out of fuel. -/
inductive EndAlike : Except Failure (Term × Nat) → Except Failure (Term × Nat) → Prop
  | value {v v' : Term} {n : Nat} : v.nameless [] = v'.nameless [] → EndAlike (.ok (v, n)) (.ok (v', n))
  | exceeded {u u' : Term} {N : Int} :
      u.nameless [] = u'.nameless [] → EndAlike (.error (.stepLimit u N)) (.error (.stepLimit u' N))
  | outOfFuel : EndAlike (.error .outOfFuel) (.error .outOfFuel)

variable {t t' : Term}

theorem run_nameless (h : t.Harmless 0) (limit : Option Int) (fuel : Nat) :
    Nameless.run limit fuel (t.nameless []) =
      (((Machine.start limit).run fuel t).1.nameless, ((Machine.start limit).run fuel t).2.steps) :=
  Machine.reduce_nameless (m := Machine.start limit) h

theorem endAlike_of_run {r r' : Verdict × Machine} (hv : r.1.nameless = r'.1.nameless) (hs : r.2.steps = r'.2.steps)
    (limit : Option Int) :
    EndAlike ((r.1.toExcept limit).map fun v => (v, r.2.steps))
      ((r'.1.toExcept limit).map fun v => (v, r'.2.steps)) := by
  obtain ⟨w, m⟩ := r
  obtain ⟨w', m'⟩ := r'
  dsimp only at hv hs ⊢
  rw [hs]
  cases w with
  | value v =>
    cases w' with
    | value v' => exact .value (Nameless.Verdict.value.inj hv)
    | exceeded | outOfFuel => cases hv
  | exceeded u =>
    cases w' with
    | exceeded u' => exact .exceeded (Nameless.Verdict.exceeded.inj hv)
    | value | outOfFuel => cases hv
  | outOfFuel =>
    cases w' with
    | outOfFuel => exact .outOfFuel
    | value | exceeded => cases hv

/-- **Evaluation respects alpha-equivalence and captures nothing**, for open and for untyped terms without names of
the supply.  Of two such terms that are the same without the names of bound variables, both or neither evaluate within
a bound, and without a bound for the same fuel, to alpha-equivalent values and by as many steps.  The run of a term is
that of its nameless form, where a free name stays one, and the value has no free names but those of the term. -/
theorem evaluate_respects_alpha (ht : t.FreshFrom 0) (ht' : t'.FreshFrom 0) (ha : t.nameless [] = t'.nameless [])
    (limit : Option Int) (fuel : Nat) :
    EndAlike (evaluate fuel limit t) (evaluate fuel limit t') ∧
    (∀ N, evaluate fuel (some N) t ≠ .error .outOfFuel) ∧
    Nameless.run limit fuel (t.nameless []) =
      (((Machine.start limit).run fuel t).1.nameless, ((Machine.start limit).run fuel t).2.steps) ∧
    ∀ v n, evaluate fuel limit t = .ok (v, n) → ∀ x ∈ v.freeVars, x ∈ t.freeVars := by
  have hr := run_nameless (.inr ht) limit fuel
  have hr' := run_nameless (.inr ht') limit fuel
  rw [← ha, hr] at hr'
  obtain ⟨hv, hs⟩ := Prod.mk.inj hr'
  refine ⟨endAlike_of_run hv hs limit, fun N => evaluate_ne_outOfFuel N fuel t, hr, fun v n hv x hx => ?_⟩
  obtain ⟨d, he⟩ := evaluates_of_evaluate hv
  obtain ⟨rs, hrs, -, -⟩ := he.contracts
  exact hrs.mem_freeVars (.inr ht) hx

/-- The name of the inner binder decides whether it is renamed when the free `y` is put below it. -/
theorem evaluate_respects_alpha_across_renaming :
    let t := app (abs "x" .bool (abs "y" .bool (app (var "x") (var "y")))) (var "y")
    let t' := app (abs "x" .bool (abs "w" .bool (app (var "x") (var "w")))) (var "y")
    t.FreshFrom 0 ∧ t'.FreshFrom 0 ∧ t.nameless [] = t'.nameless [] ∧
      EndAlike (evaluate 0 (some 1) t) (evaluate 0 (some 1) t') ∧
      (∀ N, evaluate 0 (some N) t ≠ .error .outOfFuel) ∧
      Nameless.run (some 1) 0 (t.nameless []) =
        (((Machine.start (some 1)).run 0 t).1.nameless, ((Machine.start (some 1)).run 0 t).2.steps) ∧
      ∀ v n, evaluate 0 (some 1) t = .ok (v, n) → ∀ x ∈ v.freeVars, x ∈ t.freeVars := by
  intro t t'
  have ht : t.FreshFrom 0 := freshFrom_of_head? (by decide) 0
  have ht' : t'.FreshFrom 0 := freshFrom_of_head? (by decide) 0
  have ha : t.nameless [] = t'.nameless [] := rfl
  exact ⟨ht, ht', ha, evaluate_respects_alpha ht ht' ha (some 1) 0⟩

end SimplyTyped
