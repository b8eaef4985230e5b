import SimplyTyped.Proofs.Soundness

/-!
# SimplyTyped.Proofs.Denotation — evaluation keeps the meaning of typed terms

In the set-theoretic model a type stands for a set (`Ty.Point`): one point, the two truth values, or all functions
from one set to another.  A typed term stands for a point of its type as soon as the free names have values
(`Term.denote`), and its meaning is put together from the meanings of its parts.

Substitution of a closed term is a change of the value of a name (`Term.denote_subst`).  So every contraction of a
closed typed term keeps the meaning, and the evaluator comes to a value with the meaning of the term
(`evaluate_denote`).
-/

namespace SimplyTyped

/-- The set that a type stands for. -/
def Ty.Point : Ty → Type
  | .unit => Unit
  | .bool => Bool
  | .arrow S T => S.Point → T.Point

/-- Every type has a point. -/
def Ty.point : (T : Ty) → T.Point
  | .unit => ()
  | .bool => false
  | .arrow _ T => fun _ => T.point

/-- What a name stands for: a type and a point of it. -/
structure Value where
  ty : Ty
  point : ty.Point

/-- The point of a value at its type; at other types it does not matter. -/
def Value.pointAt (v : Value) (T : Ty) : T.Point := if h : v.ty = T then h ▸ v.point else T.point

@[simp] theorem Value.pointAt_self (T : Ty) (p : T.Point) : (⟨T, p⟩ : Value).pointAt T = p := dif_pos rfl

/-- The values of the names in scope. -/
abbrev Valuation := Bindings Value

/-- The types of the names in scope. -/
def Valuation.context (ρ : Valuation) : Context := ρ.map fun b => (b.1, b.2.ty)

open Typing

namespace Term

/-- The point of a type that a term of that type stands for.  What an argument stands for depends on its type; what
stands in the places of the untyped does not matter. -/
def denote : Term → Valuation → (T : Ty) → T.Point
  | unit, _, T => Value.pointAt ⟨.unit, ()⟩ T
  | bool p, _, T => Value.pointAt ⟨.bool, p⟩ T
  | var x, ρ, T =>
    match Bindings.lookup x ρ with
    | some v => v.pointAt T
    | none => T.point
  | abs x _ body, ρ, T =>
    match T with
    | .arrow S T => fun p => body.denote (Bindings.push x ⟨S, p⟩ ρ) T
    | T => T.point
  | cond g a b, ρ, T =>
    match (g.denote ρ .bool : Bool) with
    | true => a.denote ρ T
    | false => b.denote ρ T
  | app f a, ρ, T =>
    match infer (Valuation.context ρ) a with
    | .ok S => f.denote ρ (.arrow S T) (a.denote ρ S)
    | .error _ => T.point

variable {ρ σ : Valuation} {t u v f a g b body : Term} {x : String} {S T : Ty} {c d : Int} {p : Bool}

/-- A literal stands for its truth value. -/
theorem denote_bool : (bool p).denote ρ .bool = p := rfl

theorem denote_var {v : Value} (h : Bindings.lookup x ρ = some v) : (var x).denote ρ T = v.pointAt T := by
  show (match Bindings.lookup x ρ with | some v => v.pointAt T | none => T.point) = v.pointAt T
  rw [h]

/-- An abstraction stands for a function: its value at a point is what the body stands for there. -/
theorem denote_abs {R : Ty} :
    (abs x R body).denote ρ (.arrow S T) = fun q => body.denote (Bindings.push x ⟨S, q⟩ ρ) T := rfl

theorem denote_cond :
    (cond g a b).denote ρ T =
      match (g.denote ρ .bool : Bool) with
      | true => a.denote ρ T
      | false => b.denote ρ T := rfl

/-- An application stands for the value of the function at the point of the argument. -/
theorem denote_app (ha : HasType (Valuation.context ρ) a S) :
    (app f a).denote ρ T = f.denote ρ (.arrow S T) (a.denote ρ S) := by
  show (match infer (Valuation.context ρ) a with
    | .ok S => f.denote ρ (.arrow S T) (a.denote ρ S)
    | .error _ => T.point) = _
  rw [infer_eq_ok_iff.mpr ha]

theorem lookup_context (ρ : Valuation) (x : String) :
    Bindings.lookup x (Valuation.context ρ) = (Bindings.lookup x ρ).map Value.ty := by
  induction ρ with
  | nil => rfl
  | cons binding ρ ih =>
    obtain ⟨y, v⟩ := binding
    show (if y = x then some v.ty else Bindings.lookup x (Valuation.context ρ)) =
      (if y = x then some v else Bindings.lookup x ρ).map Value.ty
    rw [ih]
    split <;> rfl

/-- The meaning of a typed term depends on the values of its free names alone. -/
theorem denote_congr (ht : HasType (Valuation.context ρ) t T)
    (h : ∀ x ∈ t.freeVars, Bindings.lookup x ρ = Bindings.lookup x σ) : t.denote ρ T = t.denote σ T := by
  induction t generalizing ρ σ T with
  | unit | bool => rfl
  | var x =>
    cases ht with
    | var hx =>
      rw [lookup_context, Option.map_eq_some_iff] at hx
      obtain ⟨v, hv, -⟩ := hx
      rw [denote_var hv, denote_var ((h x (List.mem_singleton_self x)).symm.trans hv)]
  | abs x R body ih =>
    cases ht with
    | abs hb =>
      rw [denote_abs, denote_abs]
      funext q
      exact ih hb fun y hy => lookup_push_congr _ fun hyx => h y (by simp [freeVars, hy, hyx])
  | cond g a b ihg iha ihb =>
    simp only [freeVars, List.mem_append] at h
    cases ht with
    | cond hg ha hb =>
      rw [denote_cond, denote_cond, ihg hg fun x hx => h x (.inl (.inl hx)), iha ha fun x hx => h x (.inl (.inr hx)),
        ihb hb fun x hx => h x (.inr hx)]
  | app f a ihf iha =>
    simp only [freeVars, List.mem_append] at h
    cases ht with
    | app hf ha =>
      have ha' : HasType (Valuation.context σ) a _ := (hasType_congr fun x hx => by
        rw [lookup_context, lookup_context, h x (.inr hx)]).mp ha
      rw [denote_app ha, denote_app ha', ihf hf fun x hx => h x (.inl hx), iha ha fun x hx => h x (.inr hx)]

/-- What a closed term of a type stands for does not depend on the values of names. -/
theorem denote_of_closed (hu : HasType [] u S) (ρ : Valuation) : u.denote ρ S = u.denote [] S := by
  have hf := freeVars_eq_nil_of_hasType hu
  exact (denote_congr (ρ := []) hu (by simp [hf])).symm

theorem hasType_of_closed (hu : HasType [] u S) (Γ : Context) : HasType Γ u S := by
  have hf := freeVars_eq_nil_of_hasType hu
  exact (hasType_congr (by simp [hf])).mp hu

/-- **To substitute a closed term is to change the value of a name.** -/
theorem denote_subst (hu : HasType [] u S) (ht : HasType (Bindings.push x S (Valuation.context ρ)) t T) :
    (subst x u t c).1.denote ρ T = t.denote (Bindings.push x ⟨S, u.denote [] S⟩ ρ) T := by
  have hf : u.freeVars = [] := freeVars_eq_nil_of_hasType hu
  fun_induction subst x u t c generalizing ρ T
  case case1 | case2 => rfl
  case case3 c y =>
    cases ht with
    | var hy =>
      by_cases hyx : y = x
      · subst hyx
        rw [lookup_push_self] at hy
        obtain rfl := Option.some.inj hy
        rw [if_pos rfl, denote_var (lookup_push_self _ _ _), Value.pointAt_self, denote_of_closed hu]
      · rw [lookup_push_of_ne (Ne.symm hyx), lookup_context, Option.map_eq_some_iff] at hy
        obtain ⟨v, hv, -⟩ := hy
        rw [if_neg hyx, denote_var hv, denote_var ((lookup_push_of_ne (Ne.symm hyx) _ _).trans hv)]
  case case4 c R body =>
    -- the binder of the name hides it
    have ht' : HasType (Valuation.context (Bindings.push x ⟨S, u.denote [] S⟩ ρ)) (abs x R body) T := ht
    refine (denote_congr ht' fun y hy => lookup_push_of_ne ?_ _ _).symm
    rintro rfl
    simp [freeVars] at hy
  case case5 c y R body hy hyu r ih => simp [hf] at hyu
  case case6 c y R body hy hyu r ih =>
    cases ht with
    | @abs _ _ _ T _ hb =>
      rw [denote_abs, denote_abs]
      funext q
      -- the value of `y` comes after that of `x` on one side and before it on the other
      have hb' : HasType (Bindings.push x S (Bindings.push y R (Valuation.context ρ))) body T :=
        (hasType_congr fun z _ => lookup_push_comm (Ne.symm hy) R S _ z).mp hb
      rw [ih (ρ := Bindings.push y ⟨R, q⟩ ρ) hb']
      exact denote_congr hb' fun z _ => lookup_push_comm hy _ _ _ z
  case case7 c g a b rg ra rb ihg iha _ ihb =>
    cases ht with
    | cond hg ha hb => rw [denote_cond, denote_cond, ihg hg, iha ha, ihb hb]
  case case8 c f a rf ra ihf iha =>
    cases ht with
    | app hf' ha =>
      have hra := hasType_subst (supplyApart_of_closed hf x rf.2) (drawsClear_of_closed hf x a rf.2) ha
        (hasType_of_closed hu _)
      have ha' : HasType (Valuation.context (Bindings.push x ⟨S, u.denote [] S⟩ ρ)) a _ := ha
      rw [denote_app hra, denote_app ha', ihf hf', iha ha]

/-! ## Runs -/

/-- Contraction keeps the meaning of a closed term. -/
theorem denote_of_contract {s : Contraction} (ht : HasType [] t T) (hs : t.contract c = some s) :
    s.result.denote [] T = t.denote [] T := by
  induction t generalizing s T with
  | unit | bool | var | abs => simp [contract] at hs
  | cond g a b ihg _ _ =>
    cases ht with
    | cond hg ha hb =>
      obtain ⟨p, rfl, rfl⟩ | ⟨q, hq, rfl⟩ := contract_cond_eq_some_iff.mp hs
      · rw [denote_cond, denote_bool]
        cases p <;> rfl
      · show (cond q.result a b).denote [] T = _
        rw [denote_cond, denote_cond, ihg hg hq]
  | app f a ihf _ =>
    cases ht with
    | app hf ha =>
      obtain ⟨x, R, body, rfl, rfl⟩ | ⟨q, hq, rfl⟩ := contract_app_eq_some_iff.mp hs
      · cases hf with
        | abs hb =>
          rw [denote_app (ρ := []) ha, denote_abs]
          exact denote_subst ha hb
      · show (app q.result a).denote [] T = _
        rw [denote_app (ρ := []) ha, denote_app (ρ := []) ha, ihf hf hq]

/-- Contractions keep the meaning of a closed term. -/
theorem Contracts.denote {rs : List Term} (hc : Contracts t c rs v d) (ht : HasType [] t T) :
    v.denote [] T = t.denote [] T := by
  induction hc with
  | refl => rfl
  | @step t v c d s rs hs _ ih =>
    have hs' := hasType_of_contract (harmless_of_hasType ht c) ht hs
    exact (ih hs').trans (denote_of_contract ht hs)

theorem Evaluates.denote {n : Nat} (he : Evaluates t c n v d) (ht : HasType [] t T) :
    v.denote [] T = t.denote [] T := by
  obtain ⟨rs, hc, -, -⟩ := he.contracts
  exact hc.denote ht

end Term

open Term

/-- A closed term of truth values comes to the literal of the truth value that it stands for. -/
theorem exists_returns_denote {t : Term} (ht : HasType [] t .bool) : ∃ n, Returns t (bool (t.denote [] .bool)) n := by
  obtain ⟨n, v, d, he, -, -, -⟩ := exists_evaluates_of_hasType (harmless_of_hasType ht 0) ht
  obtain ⟨hv, hvT⟩ := he.isValue ht
  obtain ⟨p, rfl⟩ := canonical_of_isValue hvT hv
  have hp : p = t.denote [] .bool := denote_bool.symm.trans (he.denote ht)
  exact ⟨n, returns_iff_evaluates.mpr ⟨d, hp ▸ he⟩⟩

/-- **Evaluation keeps the meaning of closed typed terms.**  Such a term comes to a value that stands for the same
point of the type as the term, and so does every value that it comes to within a bound.  A term of truth values comes
to the literal of its truth value, so two of them that stand for the same come to the same literal. -/
theorem evaluate_denote :
    (∀ t T, typeOf t = .ok T →
      (∃ v n, Returns t v n ∧ typeOf v = .ok T ∧ v.denote [] T = t.denote [] T) ∧
      ∀ fuel limit v n, evaluate fuel limit t = .ok (v, n) → v.denote [] T = t.denote [] T) ∧
    (∀ t, typeOf t = .ok .bool → ((∃ n, Returns t (bool true) n) ↔ t.denote [] .bool = true)) ∧
    ∀ t u, typeOf t = .ok .bool → typeOf u = .ok .bool → t.denote [] .bool = u.denote [] .bool →
      ∃ p n k, Returns t (bool p) n ∧ Returns u (bool p) k := by
  refine ⟨fun t T hT => ⟨?_, ?_⟩, fun t hT => ⟨?_, ?_⟩, fun t u hT hU he => ?_⟩
  · have ht := typeOf_eq_ok_iff.mp hT
    obtain ⟨n, v, d, he, -, -, hv⟩ := exists_evaluates_of_hasType (harmless_of_hasType ht 0) ht
    exact ⟨v, n, returns_iff_evaluates.mpr ⟨d, he⟩, typeOf_eq_ok_iff.mpr hv, he.denote ht⟩
  · intro fuel limit v n hv
    obtain ⟨d, he⟩ := evaluates_of_evaluate hv
    exact he.denote (typeOf_eq_ok_iff.mp hT)
  · rintro ⟨n, hr⟩
    obtain ⟨d, he⟩ := returns_iff_evaluates.mp hr
    exact (he.denote (typeOf_eq_ok_iff.mp hT)).symm.trans denote_bool
  · intro hd
    obtain ⟨n, hr⟩ := exists_returns_denote (typeOf_eq_ok_iff.mp hT)
    exact ⟨n, hd ▸ hr⟩
  · obtain ⟨n, hn⟩ := exists_returns_denote (typeOf_eq_ok_iff.mp hT)
    obtain ⟨k, hk⟩ := exists_returns_denote (typeOf_eq_ok_iff.mp hU)
    exact ⟨_, n, k, hn, he ▸ hk⟩

/-- Two terms that stand for the truth, one of them by a binder that hides another of its name. -/
theorem evaluate_denote_below_shadowing_binders :
    let t := app (abs "x" .bool (app (abs "x" .bool (cond (var "x") (bool false) (bool true))) (var "x"))) (bool false)
    let u := app (abs "f" (.arrow .bool .bool) (app (var "f") (bool true))) (abs "x" .bool (var "x"))
    typeOf t = .ok .bool ∧ typeOf u = .ok .bool ∧ t.denote [] .bool = u.denote [] .bool ∧
      (∃ v n, Returns t v n ∧ typeOf v = .ok .bool ∧ v.denote [] .bool = t.denote [] .bool) ∧
      ((∃ n, Returns t (bool true) n) ↔ t.denote [] .bool = true) ∧
      ∃ p n k, Returns t (bool p) n ∧ Returns u (bool p) k := by
  intro t u
  have hT : typeOf t = .ok .bool := rfl
  have hU : typeOf u = .ok .bool := rfl
  have he : t.denote [] .bool = u.denote [] .bool := rfl
  obtain ⟨h, ht, hp⟩ := evaluate_denote
  exact ⟨hT, hU, he, (h t .bool hT).1, ht t hT, hp t u hT hU he⟩

end SimplyTyped
