import SimplyTyped.Term.Substitution

/-!
# SimplyTyped.Reduction — call-by-name reduction with a step count

`Machine.reduce` contracts the leftmost outermost redex until none is left, arguments unevaluated.  Every visit to a
conditional or an application counts a step, before it is known whether the head will make progress; a head that does
not is left in place, and the term is stuck.  The machine carries the count, the bound on it and the cursor of the
supply of fresh names, and it keeps them when the bound is passed.
-/

namespace SimplyTyped

/-- The state that runs through a reduction. -/
structure Machine where
  /-- The number of steps after which to give up; `none` for never. -/
  limit : Option Int
  /-- The next name of the supply. -/
  cursor : Int
  /-- The steps counted. -/
  steps : Nat
  deriving DecidableEq

/-- How a reduction ends. -/
inductive Verdict where
  /-- No rule applies any more. -/
  | value (t : Term)
  /-- The bound was passed at this term. -/
  | exceeded (t : Term)
  | outOfFuel
  deriving DecidableEq

namespace Machine

/-- A machine that has done nothing yet. -/
def start (limit : Option Int) : Machine := ⟨limit, 0, 0⟩

/-- The machine after counting a step. -/
def tick (m : Machine) : Machine := { m with steps := m.steps + 1 }

/-- Whether the count has passed the bound. -/
def isSpent (m : Machine) : Bool :=
  match m.limit with
  | none => false
  | some n => decide (n < (m.steps : Int))

/-- Substitution that draws from the machine's supply. -/
def subst (m : Machine) (x : String) (u t : Term) : Term × Machine :=
  let r := Term.subst x u t m.cursor
  (r.1, { m with cursor := r.2 })

/-- Fuel that cannot run out before the bound is passed; `fuel` when there is no bound. -/
def fuelFor (limit : Option Int) (fuel : Nat) : Nat :=
  match limit with
  | none => fuel
  | some n => n.toNat + 2

/-- Reduces a term until no rule applies.  `fuel` bounds the depth of the recursion. -/
def reduce : (fuel : Nat) → Term → Machine → Verdict × Machine
  | 0, _, m => (.outOfFuel, m)
  | fuel + 1, .cond g a b, m =>
    if m.tick.isSpent then (.exceeded (.cond g a b), m.tick)
    else
      match g.truth? with
      | some c => reduce fuel (if c then a else b) m.tick
      | none =>
        match reduce fuel g m.tick with
        | (.value g', m') =>
          if g'.truth?.isSome then reduce fuel (.cond g' a b) m' else (.value (.cond g' a b), m')
        | (.exceeded t, m') => (.exceeded t, m')
        | (.outOfFuel, m') => (.outOfFuel, m')
  | fuel + 1, .app f a, m =>
    if m.tick.isSpent then (.exceeded (.app f a), m.tick)
    else
      match f.lambda? with
      | some (x, body) =>
        let r := m.tick.subst x a body
        reduce fuel r.1 r.2
      | none =>
        match reduce fuel f m.tick with
        | (.value f', m') =>
          if f'.lambda?.isSome then reduce fuel (.app f' a) m' else (.value (.app f' a), m')
        | (.exceeded t, m') => (.exceeded t, m')
        | (.outOfFuel, m') => (.outOfFuel, m')
  | _ + 1, .unit, m => (.value .unit, m)
  | _ + 1, .bool b, m => (.value (.bool b), m)
  | _ + 1, .var x, m => (.value (.var x), m)
  | _ + 1, .abs x ty body, m => (.value (.abs x ty body), m)

/-- Reduces a term with fuel enough for the machine's bound. -/
def run (m : Machine) (fuel : Nat) (t : Term) : Verdict × Machine := reduce (fuelFor m.limit fuel) t m

/-! ## Fuel -/

/-- One more unit of fuel keeps a verdict that was reached. -/
theorem reduce_succ {fuel : Nat} {t : Term} {m : Machine} (h : (reduce fuel t m).1 ≠ .outOfFuel) :
    reduce (fuel + 1) t m = reduce fuel t m := by
  fun_induction reduce fuel t m with
  | case1 => exact absurd rfl h
  | case2 n g a b m hs => rw [reduce, if_pos hs]
  | case3 n g a b m hs p hg ih =>
    rw [reduce, if_neg hs, hg]
    exact ih h
  | case4 n g a b m hs hg g' m' hr hg' ih ih' =>
    rw [reduce, if_neg hs, hg, ih (by simp [hr]), hr]
    simp only [if_pos hg']
    exact ih' h
  | case5 n g a b m hs hg g' m' hr hg' ih =>
    rw [reduce, if_neg hs, hg, ih (by simp [hr]), hr]
    exact if_neg hg'
  | case6 n g a b m hs hg u m' hr ih => rw [reduce, if_neg hs, hg, ih (by simp [hr]), hr]
  | case7 => exact absurd rfl h
  | case8 n f a m hs => rw [reduce, if_pos hs]
  | case9 n f a m hs x body hf r ih =>
    rw [reduce, if_neg hs, hf]
    exact ih h
  | case10 n f a m hs hf f' m' hr hf' ih ih' =>
    rw [reduce, if_neg hs, hf, ih (by simp [hr]), hr]
    simp only [if_pos hf']
    exact ih' h
  | case11 n f a m hs hf f' m' hr hf' ih =>
    rw [reduce, if_neg hs, hf, ih (by simp [hr]), hr]
    exact if_neg hf'
  | case12 n f a m hs hf u m' hr ih => rw [reduce, if_neg hs, hf, ih (by simp [hr]), hr]
  | case13 => exact absurd rfl h
  | case14 | case15 | case16 | case17 => rfl

/-- More fuel keeps a verdict that was reached. -/
theorem reduce_of_le {fuel fuel' : Nat} {t : Term} {m m' : Machine} {v : Verdict} (hle : fuel ≤ fuel')
    (h : reduce fuel t m = (v, m')) (hv : v ≠ .outOfFuel) : reduce fuel' t m = (v, m') := by
  induction hle with
  | refl => exact h
  | step _ ih => rw [reduce_succ (by rwa [ih]), ih]

/-! ## What a reduction keeps -/

/-- What holds between a machine and the machine after a step, or after a substitution, holds between a machine and the
one that comes back from a reduction. -/
theorem reduce_rel {P : Machine → Machine → Prop} (refl : ∀ m, P m m)
    (trans : ∀ {m m' m''}, P m m' → P m' m'' → P m m'') (tick : ∀ m, P m m.tick)
    (draw : ∀ m x u t, P m (Machine.subst m x u t).2) (fuel : Nat) (t : Term) (m : Machine) :
    P m (reduce fuel t m).2 := by
  fun_induction reduce fuel t m with
  | case1 _ m => exact refl m
  | case2 n g a b m => exact tick m
  | case3 n g a b m _ _ _ ih => exact trans (tick m) ih
  | case4 n g a b m _ _ g' m' hr _ ih ih' =>
    rw [hr] at ih
    exact trans (tick m) (trans ih ih')
  | case5 n g a b m _ _ g' m' hr _ ih =>
    rw [hr] at ih
    exact trans (tick m) ih
  | case6 n g a b m _ _ u m' hr ih =>
    rw [hr] at ih
    exact trans (tick m) ih
  | case7 n g a b m _ _ m' hr ih =>
    rw [hr] at ih
    exact trans (tick m) ih
  | case8 n f a m => exact tick m
  | case9 n f a m _ x body _ r ih => exact trans (tick m) (trans (draw m.tick x a body) ih)
  | case10 n f a m _ _ f' m' hr _ ih ih' =>
    rw [hr] at ih
    exact trans (tick m) (trans ih ih')
  | case11 n f a m _ _ f' m' hr _ ih =>
    rw [hr] at ih
    exact trans (tick m) ih
  | case12 n f a m _ _ u m' hr ih =>
    rw [hr] at ih
    exact trans (tick m) ih
  | case13 n f a m _ _ m' hr ih =>
    rw [hr] at ih
    exact trans (tick m) ih
  | case14 _ m | case15 _ _ m | case16 _ _ m | case17 _ _ _ _ m => exact refl m

theorem limit_reduce (fuel : Nat) (t : Term) (m : Machine) : (reduce fuel t m).2.limit = m.limit :=
  reduce_rel (P := fun m m' => m'.limit = m.limit) (fun _ => rfl) (fun h h' => h'.trans h) (fun _ => rfl)
    (fun _ _ _ _ => rfl) fuel t m

theorem limit_of_reduce {fuel : Nat} {t : Term} {m m' : Machine} {v : Verdict} (h : reduce fuel t m = (v, m')) :
    m'.limit = m.limit := by
  have hm := limit_reduce fuel t m
  rwa [h] at hm

theorem steps_le_reduce (fuel : Nat) (t : Term) (m : Machine) : m.steps ≤ (reduce fuel t m).2.steps :=
  reduce_rel (P := fun m m' => m.steps ≤ m'.steps) (fun _ => Nat.le_refl _) Nat.le_trans (fun _ => Nat.le_succ _)
    (fun _ _ _ _ => Nat.le_refl _) fuel t m

/-! ## Fuel for a bound -/

/-- A machine that has not passed its bound has counted no more steps than that. -/
theorem tick_steps_le {m : Machine} {n : Int} (hl : m.limit = some n) (hs : ¬ m.tick.isSpent = true) :
    m.steps + 1 ≤ n.toNat := by
  have h : ¬ n < ((m.steps + 1 : Nat) : Int) := by simpa [isSpent, tick, hl] using hs
  omega

/-- After a step there is fuel for those that are left. -/
theorem fuel_left {fuel : Nat} {m m' : Machine} {n : Int} (hl : m.limit = some n) (hs : ¬ m.tick.isSpent = true)
    (hf : n.toNat + 2 ≤ fuel + 1 + m.steps) (hle : m.tick.steps ≤ m'.steps) :
    0 < fuel ∧ n.toNat + 2 ≤ fuel + m'.steps := by
  have h := tick_steps_le hl hs
  have hle : m.steps + 1 ≤ m'.steps := hle
  omega

/-- Fuel for the steps that are left, and one unit more, does not run out. -/
theorem reduce_ne_outOfFuel {fuel : Nat} {t : Term} {m : Machine} {n : Int} (hl : m.limit = some n)
    (hpos : 0 < fuel) (hf : n.toNat + 2 ≤ fuel + m.steps) : (reduce fuel t m).1 ≠ .outOfFuel := by
  fun_induction reduce fuel t m with
  | case1 => omega
  | case3 k g a b m hs p hg ih =>
    obtain ⟨hpos, hf⟩ := fuel_left hl hs hf (Nat.le_refl _)
    exact ih hl hpos hf
  | case4 k g a b m hs hg g' m' hr hg' _ ih =>
    have hk := steps_le_reduce k g m.tick
    rw [hr] at hk
    obtain ⟨hpos, hf⟩ := fuel_left hl hs hf hk
    exact ih ((limit_of_reduce hr).trans hl) hpos hf
  | case7 k g a b m hs hg m' hr ih =>
    obtain ⟨hpos, hf⟩ := fuel_left hl hs hf (Nat.le_refl _)
    exact absurd (congrArg Prod.fst hr) (ih hl hpos hf)
  | case9 k f a m hs x body hf' r ih =>
    have hle : m.tick.steps ≤ r.2.steps := Nat.le_refl _
    obtain ⟨hpos, hf⟩ := fuel_left hl hs hf hle
    exact ih hl hpos hf
  | case10 k f a m hs hf' f' m' hr hf'' _ ih =>
    have hk := steps_le_reduce k f m.tick
    rw [hr] at hk
    obtain ⟨hpos, hf⟩ := fuel_left hl hs hf hk
    exact ih ((limit_of_reduce hr).trans hl) hpos hf
  | case13 k f a m hs hf' m' hr ih =>
    obtain ⟨hpos, hf⟩ := fuel_left hl hs hf (Nat.le_refl _)
    exact absurd (congrArg Prod.fst hr) (ih hl hpos hf)
  | case2 | case5 | case6 | case8 | case11 | case12 | case14 | case15 | case16 | case17 => simp

/-- With a bound the fuel that is asked for does not matter. -/
theorem run_ne_outOfFuel {fuel : Nat} {t : Term} {m : Machine} {n : Int} (hl : m.limit = some n) :
    (m.run fuel t).1 ≠ .outOfFuel := by
  have hf : fuelFor m.limit fuel = n.toNat + 2 := by rw [hl]; rfl
  unfold run
  rw [hf]
  exact reduce_ne_outOfFuel hl (by omega) (by omega)

end Machine

end SimplyTyped
