import SimplyTyped.Proofs.Evaluates

/-!
# SimplyTyped.Proofs.SmallStep — reduction as iterated contraction of the head redex

`Term.contract` contracts the leftmost outermost redex of a term once: it descends through guards that are no literals
and functions that are no abstractions, and what it finds there is a conditional on a literal, an applied abstraction,
or nothing to contract.  `Term.Contracts` iterates it and lists the contracta on the way.

The machine of `SimplyTyped.Reduction` works on heads recursively and counts a step for every visit.  Both come to
the same term with the same cursor, and the count is one for each contraction and one for each descent, from the term
and from each contractum (`evaluates_iff_contracts`).
-/

namespace SimplyTyped.Term

/-- A contraction of the head redex of a term. -/
structure Contraction where
  /-- What the redex becomes. -/
  contractum : Term
  /-- The term with that in the place of the redex. -/
  result : Term
  /-- The cursor after the names drawn. -/
  cursor : Int

/-- The contraction of the head redex, if there is one. -/
@[simp]
def contract : Term → Int → Option Contraction
  | cond g a b, c =>
    match g.truth? with
    | some p => let r := if p then a else b; some ⟨r, r, c⟩
    | none => (g.contract c).map fun s => { s with result := cond s.result a b }
  | app f a, c =>
    match f.lambda? with
    | some (x, body) => let r := subst x a body c; some ⟨r.1, r.1, r.2⟩
    | none => (f.contract c).map fun s => { s with result := app s.result a }
  | _, _ => none

/-- The number of descents to the place of the head redex. -/
def headDepth : Term → Nat
  | cond g _ _ => if g.truth?.isSome then 0 else g.headDepth + 1
  | app f _ => if f.lambda?.isSome then 0 else f.headDepth + 1
  | _ => 0

/-- Contractions one after the other, with the list of their contracta. -/
inductive Contracts : Term → Int → List Term → Term → Int → Prop
  | refl {t : Term} {c : Int} : Contracts t c [] t c
  | step {t v : Term} {c d : Int} {s : Contraction} {rs : List Term} :
      t.contract c = some s → Contracts s.result s.cursor rs v d → Contracts t c (s.contractum :: rs) v d

variable {t v f a b g : Term} {c d : Int} {rs : List Term} {s : Contraction}

theorem headDepth_cond_of_none (h : g.truth? = none) (a b : Term) : (cond g a b).headDepth = g.headDepth + 1 := by
  simp [headDepth, h]

theorem headDepth_app_of_none (h : f.lambda? = none) (a : Term) : (app f a).headDepth = f.headDepth + 1 := by
  simp [headDepth, h]

theorem truth?_of_contract (h : t.contract c = some s) : t.truth? = none := by
  cases t with
  | bool p => simp [contract] at h
  | unit | var | abs | cond | app => rfl

theorem lambda?_of_contract (h : t.contract c = some s) : t.lambda? = none := by
  cases t with
  | abs x ty body => simp [contract] at h
  | unit | bool | var | cond | app => rfl

theorem contract_cond_eq_some_iff :
    (cond g a b).contract c = some s ↔
      (∃ p, g = bool p ∧ s = ⟨if p then a else b, if p then a else b, c⟩) ∨
        ∃ q, g.contract c = some q ∧ s = ⟨q.contractum, cond q.result a b, q.cursor⟩ := by
  constructor
  · intro h
    rw [contract] at h
    cases hg : g.truth? with
    | some p =>
      rw [hg] at h
      exact .inl ⟨p, truth?_eq_some hg, (Option.some.inj h).symm⟩
    | none =>
      rw [hg, Option.map_eq_some_iff] at h
      obtain ⟨q, hq, rfl⟩ := h
      exact .inr ⟨q, hq, rfl⟩
  · rintro (⟨p, rfl, rfl⟩ | ⟨q, hq, rfl⟩)
    · rfl
    · rw [contract, truth?_of_contract hq, hq]
      rfl

theorem contract_app_eq_some_iff :
    (app f a).contract c = some s ↔
      (∃ x S body, f = abs x S body ∧ s = ⟨(subst x a body c).1, (subst x a body c).1, (subst x a body c).2⟩) ∨
        ∃ q, f.contract c = some q ∧ s = ⟨q.contractum, app q.result a, q.cursor⟩ := by
  constructor
  · intro h
    rw [contract] at h
    cases hf : f.lambda? with
    | some l =>
      obtain ⟨S, hS⟩ := lambda?_eq_some hf
      rw [hf] at h
      exact .inl ⟨l.1, S, l.2, hS, (Option.some.inj h).symm⟩
    | none =>
      rw [hf, Option.map_eq_some_iff] at h
      obtain ⟨q, hq, rfl⟩ := h
      exact .inr ⟨q, hq, rfl⟩
  · rintro (⟨x, S, body, rfl, rfl⟩ | ⟨q, hq, rfl⟩)
    · rfl
    · rw [contract, lambda?_of_contract hq, hq]
      rfl

theorem contract_cond_eq_none_iff : (cond g a b).contract c = none ↔ g.truth? = none ∧ g.contract c = none := by
  rw [contract]
  cases hg : g.truth? <;> simp

theorem contract_app_eq_none_iff : (app f a).contract c = none ↔ f.lambda? = none ∧ f.contract c = none := by
  rw [contract]
  cases hf : f.lambda? <;> simp

theorem Contracts.append {u : Term} {e : Int} {qs : List Term} (h : Contracts t c rs u d)
    (h' : Contracts u d qs v e) : Contracts t c (rs ++ qs) v e := by
  induction h with
  | refl => exact h'
  | step hs _ ih => exact .step hs (ih h')

theorem Contracts.cond {g' : Term} (h : Contracts g c rs g' d) (a b : Term) :
    Contracts (cond g a b) c rs (cond g' a b) d := by
  induction h with
  | refl => exact .refl
  | step hs _ ih =>
    refine .step (s := ⟨_, Term.cond _ a b, _⟩) ?_ ih
    exact contract_cond_eq_some_iff.mpr (.inr ⟨_, hs, rfl⟩)

theorem Contracts.app {f' : Term} (h : Contracts f c rs f' d) (a : Term) :
    Contracts (app f a) c rs (app f' a) d := by
  induction h with
  | refl => exact .refl
  | step hs _ ih =>
    refine .step (s := ⟨_, Term.app _ a, _⟩) ?_ ih
    exact contract_app_eq_some_iff.mpr (.inr ⟨_, hs, rfl⟩)

/-! ## The two machines -/

/-- A term without a head redex reduces to itself, by one step for each descent. -/
theorem evaluates_self (h : t.contract c = none) : Evaluates t c t.headDepth t c := by
  induction t with
  | unit => exact .unit
  | bool p => exact .bool
  | var x => exact .var
  | abs x ty body => exact .abs
  | cond g a b ihg _ _ =>
    obtain ⟨hg, hc⟩ := contract_cond_eq_none_iff.mp h
    rw [headDepth_cond_of_none hg]
    exact .stuckGuard hg (ihg hc) hg
  | app f a ihf _ =>
    obtain ⟨hf, hc⟩ := contract_app_eq_none_iff.mp h
    rw [headDepth_app_of_none hf]
    exact .stuckFunction hf (ihf hc) hf

/-- A contraction before a reduction: one step for the contraction, and the descents are those to the redex and those
into the contractum in place of those into the term after it. -/
theorem Evaluates.of_contract {k : Nat} (hs : t.contract c = some s) (he : Evaluates s.result s.cursor k v d) :
    ∃ n, Evaluates t c n v d ∧ n + s.result.headDepth = k + 1 + t.headDepth + s.contractum.headDepth := by
  induction t generalizing s k v d with
  | unit | bool | var | abs => simp [contract] at hs
  | cond g a b ihg _ _ =>
    obtain ⟨p, rfl, rfl⟩ | ⟨q, hq, rfl⟩ := contract_cond_eq_some_iff.mp hs
    · exact ⟨k + 1, .branch he, by simp [headDepth]⟩
    · have hg := truth?_of_contract hq
      rw [headDepth_cond_of_none hg]
      dsimp only at he ⊢
      -- the guard of the term after it has become a literal, is reduced on, or is stuck
      generalize hr : q.result = g' at he
      cases he with
      | @branch p a b v c d k he =>
        obtain ⟨n, hn, hw⟩ := ihg (k := 0) (v := Term.bool p) hq (by rw [hr]; exact .bool)
        refine ⟨n + 1 + (k + 1), .guard hg hn (.branch he), ?_⟩
        simp only [hr, headDepth, truth?_bool, Option.isSome_some, if_true] at hw ⊢
        omega
      | @guard g a b v p c d e k j hg' he he' =>
        obtain ⟨n, hn, hw⟩ := ihg hq (hr ▸ he)
        refine ⟨n + 1 + j, .guard hg hn he', ?_⟩
        rw [headDepth_cond_of_none hg']
        rw [hr] at hw
        omega
      | @stuckGuard g g' a b c d k hg' he hg'' =>
        obtain ⟨n, hn, hw⟩ := ihg hq (hr ▸ he)
        refine ⟨n + 1, .stuckGuard hg hn hg'', ?_⟩
        rw [headDepth_cond_of_none hg']
        rw [hr] at hw
        omega
  | app f a ihf _ =>
    obtain ⟨x, S, body, rfl, rfl⟩ | ⟨q, hq, rfl⟩ := contract_app_eq_some_iff.mp hs
    · exact ⟨k + 1, .beta he, by simp [headDepth]⟩
    · have hf := lambda?_of_contract hq
      rw [headDepth_app_of_none hf]
      dsimp only at he ⊢
      -- as for a guard, with an abstraction in the place of a literal
      generalize hr : q.result = f' at he
      cases he with
      | @beta x ty body a v c d k he =>
        obtain ⟨n, hn, hw⟩ := ihf (k := 0) (v := Term.abs x ty body) hq (by rw [hr]; exact .abs)
        refine ⟨n + 1 + (k + 1), .function hf hn (.beta he), ?_⟩
        simp only [hr, headDepth, lambda?_abs, Option.isSome_some, if_true] at hw ⊢
        omega
      | @function f a v body x ty c d e k j hf' he he' =>
        obtain ⟨n, hn, hw⟩ := ihf hq (hr ▸ he)
        refine ⟨n + 1 + j, .function hf hn he', ?_⟩
        rw [headDepth_app_of_none hf']
        rw [hr] at hw
        omega
      | @stuckFunction f f' a c d k hf' he hf'' =>
        obtain ⟨n, hn, hw⟩ := ihf hq (hr ▸ he)
        refine ⟨n + 1, .stuckFunction hf hn hf'', ?_⟩
        rw [headDepth_app_of_none hf']
        rw [hr] at hw
        omega

/-- The steps that a reduction counts: the contractions, and the descents from the term and from each contractum. -/
def stepCount (t : Term) (rs : List Term) : Nat := rs.length + t.headDepth + (rs.map headDepth).sum

/-- Contractions to a term without a head redex are a reduction. -/
theorem Contracts.evaluates (h : Contracts t c rs v d) (hv : v.contract d = none) :
    Evaluates t c (stepCount t rs) v d := by
  induction h with
  | refl => simpa [stepCount] using evaluates_self hv
  | @step t v c d s rs hs _ ih =>
    obtain ⟨n, hn, hw⟩ := Evaluates.of_contract hs (ih hv)
    have hc : n = stepCount t (s.contractum :: rs) := by
      simp only [stepCount, List.length_cons, List.map_cons, List.sum_cons] at hw ⊢
      omega
    exact hc ▸ hn

/-- A reduction is made of contractions to a term without a head redex. -/
theorem Evaluates.contracts {n : Nat} (h : Evaluates t c n v d) :
    ∃ rs, Contracts t c rs v d ∧ v.contract d = none ∧ n = stepCount t rs := by
  induction h with
  | unit | bool | var | abs => exact ⟨[], .refl, rfl, rfl⟩
  | @branch p a b v c d n _ ih =>
    obtain ⟨rs, hrs, hv, rfl⟩ := ih
    refine ⟨_, .step (s := ⟨if p then a else b, if p then a else b, c⟩) rfl hrs, hv, ?_⟩
    simp [stepCount, headDepth]
    omega
  | @guard g a b v p c d e n k hg _ _ ih ih' =>
    obtain ⟨rs, hrs, -, rfl⟩ := ih
    obtain ⟨qs, hqs, hv, rfl⟩ := ih'
    refine ⟨rs ++ qs, (hrs.cond a b).append hqs, hv, ?_⟩
    simp [stepCount, headDepth, hg]
    omega
  | @stuckGuard g g' a b c d n hg _ hg' ih =>
    obtain ⟨rs, hrs, hv, rfl⟩ := ih
    refine ⟨rs, hrs.cond a b, contract_cond_eq_none_iff.mpr ⟨hg', hv⟩, ?_⟩
    simp [stepCount, headDepth, hg]
    omega
  | @beta x ty body a v c d n _ ih =>
    obtain ⟨rs, hrs, hv, rfl⟩ := ih
    refine ⟨_, .step (s := ⟨(subst x a body c).1, (subst x a body c).1, (subst x a body c).2⟩) rfl hrs, hv, ?_⟩
    simp [stepCount, headDepth]
    omega
  | @function f a v body x ty c d e n k hf _ _ ih ih' =>
    obtain ⟨rs, hrs, -, rfl⟩ := ih
    obtain ⟨qs, hqs, hv, rfl⟩ := ih'
    refine ⟨rs ++ qs, (hrs.app a).append hqs, hv, ?_⟩
    simp [stepCount, headDepth, hf]
    omega
  | @stuckFunction f f' a c d n hf _ hf' ih =>
    obtain ⟨rs, hrs, hv, rfl⟩ := ih
    refine ⟨rs, hrs.app a, contract_app_eq_none_iff.mpr ⟨hf', hv⟩, ?_⟩
    simp [stepCount, headDepth, hf]
    omega

/-- Reduction is iterated contraction, with the steps counted. -/
theorem evaluates_iff_contracts {n : Nat} :
    Evaluates t c n v d ↔ ∃ rs, Contracts t c rs v d ∧ v.contract d = none ∧ n = stepCount t rs := by
  constructor
  · exact Evaluates.contracts
  · rintro ⟨rs, hrs, hv, rfl⟩
    exact hrs.evaluates hv

/-- **The machine without a bound is iterated contraction of the head redex.**  From every cursor and count it comes
to an end exactly when the contractions do, with the same term and cursor, and it has counted one step for each
contraction and one for each descent, from the term and from each contractum. -/
theorem run_iff_contracts (t : Term) (c : Int) (n : Nat) :
    ((∃ fuel, ((Machine.mk none c n).run fuel t).1 ≠ .outOfFuel) ↔
      ∃ rs v d, Contracts t c rs v d ∧ v.contract d = none) ∧
    ∀ v m, (∃ fuel, (Machine.mk none c n).run fuel t = (.value v, m)) ↔
      ∃ rs d, Contracts t c rs v d ∧ v.contract d = none ∧
        m = ⟨none, d, n + (rs.length + t.headDepth + (rs.map headDepth).sum)⟩ := by
  have hvalue : ∀ v m, (∃ fuel, (Machine.mk none c n).run fuel t = (.value v, m)) ↔
      ∃ rs d, Contracts t c rs v d ∧ v.contract d = none ∧ m = ⟨none, d, n + stepCount t rs⟩ := by
    intro v m
    refine (Machine.reduce_eq_value_iff (m := ⟨none, c, n⟩)).trans ⟨?_, ?_⟩
    · rintro ⟨k, d, he, -, rfl⟩
      obtain ⟨rs, hrs, hv, rfl⟩ := evaluates_iff_contracts.mp he
      exact ⟨rs, d, hrs, hv, rfl⟩
    · rintro ⟨rs, d, hrs, hv, rfl⟩
      have he := evaluates_iff_contracts.mpr ⟨rs, hrs, hv, rfl⟩
      exact ⟨_, d, he, Machine.allows_of_limit rfl _, rfl⟩
  refine ⟨⟨?_, ?_⟩, hvalue⟩
  · rintro ⟨fuel, hf⟩
    obtain ⟨v, m, hr⟩ := Machine.exists_value_of_limit rfl hf
    obtain ⟨rs, d, hrs, hv, -⟩ := (hvalue v m).mp ⟨fuel, hr⟩
    exact ⟨rs, v, d, hrs, hv⟩
  · rintro ⟨rs, v, d, hrs, hv⟩
    obtain ⟨fuel, hr⟩ := (hvalue v _).mpr ⟨rs, d, hrs, hv, rfl⟩
    exact ⟨fuel, by simp [hr]⟩

end SimplyTyped.Term
