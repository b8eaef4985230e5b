import SimplyTyped.Proofs.HasType
import SimplyTyped.Proofs.NamelessStep

/-!
# SimplyTyped.Proofs.Normalization — the contractions of a typed term come to an end

Arguments are copied unevaluated, so a typed term may grow as it is contracted and no measure on terms will do.
`Nameless.Reducible` is a relation by recursion on types: a term of it halts, and at a function type so does its
application to every term of the relation.  All typed terms are in it when terms in it take the place of their bound
variables (`HasType.reducible`).

Free names are allowed throughout.  A term stuck on one is in the relation at every type.
-/

namespace SimplyTyped.Nameless

/-- The terms that halt, and as functions keep halting when they are applied to such terms. -/
def Reducible : Ty → Nameless → Prop
  | .unit, t => t.Halts
  | .bool, t => t.Halts
  | .arrow S T, t => t.Halts ∧ ∀ u : Nameless, u.Fits 0 → Reducible S u → Reducible T (app t u)

/-- The terms for the binders around a term, one for each type. -/
def ReducibleAt (us : List Nameless) (Δ : List Ty) : Prop :=
  List.Forall₂ (fun u S => u.Fits 0 ∧ Reducible S u) us Δ

variable {t f g a b : Nameless} {s : Contraction} {S T : Ty} {us : List Nameless} {Δ : List Ty}

theorem Reducible.halts (h : Reducible T t) : t.Halts := by
  cases T with
  | arrow S T => exact h.1
  | unit | bool => exact h

/-- What a term becomes is reducible, and so is the term. -/
theorem Reducible.expand (hs : t.contract = some s) (h : Reducible T s.result) : Reducible T t := by
  induction T generalizing t s with
  | unit | bool => exact .step hs h
  | arrow S T _ ih =>
    refine ⟨.step hs h.1, fun u hu hr => ?_⟩
    have happ := contract_app_eq_some_iff (a := u).mpr (.inr ⟨s, hs, rfl⟩)
    exact ih happ (h.2 u hu hr)

/-- A stuck term is reducible at every type; applied to something it stays stuck. -/
theorem reducible_of_stuck (hc : t.contract = none) (hl : t.lambda? = none) : Reducible T t := by
  induction T generalizing t with
  | unit | bool => exact .rest hc
  | arrow S T _ ih =>
    refine ⟨.rest hc, fun u _ _ => ih ?_ rfl⟩
    exact contract_app_eq_none_iff.mpr ⟨hl, hc⟩

theorem Reducible.cond (hg : g.Halts) (ha : Reducible T a) (hb : Reducible T b) : Reducible T (cond g a b) := by
  induction hg with
  | @rest g hc =>
    cases hg : g.truth? with
    | none => exact reducible_of_stuck (contract_cond_eq_none_iff.mpr ⟨hg, hc⟩) rfl
    | some p =>
      refine Reducible.expand (contract_cond_eq_some_iff.mpr (.inl ⟨p, truth?_eq_some hg, rfl⟩)) ?_
      cases p with
      | true => exact ha
      | false => exact hb
  | step hs _ ih => exact Reducible.expand (contract_cond_eq_some_iff.mpr (.inr ⟨_, hs, rfl⟩)) ih

theorem reducible_abs {body : Nameless}
    (h : ∀ u : Nameless, u.Fits 0 → Reducible S u → Reducible T (body.inst [u] 0)) :
    Reducible (.arrow S T) (abs S body) :=
  ⟨.rest rfl, fun u hu hr => Reducible.expand (s := ⟨body.inst [u] 0, body.inst [u] 0⟩) rfl (h u hu hr)⟩

theorem ReducibleAt.fits (h : ReducibleAt us Δ) : ∀ u ∈ us, u.Fits 0 := by
  induction h with
  | nil => simp
  | cons hu _ ih => exact List.forall_mem_cons.mpr ⟨hu.1, ih⟩

theorem ReducibleAt.getElem? {i : Nat} (h : ReducibleAt us Δ) (hi : Δ[i]? = some T) :
    ∃ u, us[i]? = some u ∧ Reducible T u := by
  induction h generalizing i with
  | nil => cases hi
  | cons hu _ ih =>
    cases i with
    | zero =>
      obtain rfl := Option.some.inj hi
      exact ⟨_, rfl, hu.2⟩
    | succ i => exact ih hi

/-- **Typed terms are reducible** when reducible terms take the place of the variables of the binders around. -/
theorem HasType.reducible {Γ : String → Option Ty} (h : HasType Γ Δ t T) (hus : ReducibleAt us Δ) :
    Reducible T (t.inst us 0) := by
  induction h generalizing us with
  | unit | bool => exact .rest rfl
  | free => exact reducible_of_stuck rfl rfl
  | bound hi =>
    obtain ⟨u, hu, hr⟩ := hus.getElem? hi
    rw [Nameless.inst, if_neg (Nat.not_lt_zero _), Nat.sub_zero, hu]
    exact hr
  | abs _ ih =>
    -- the argument joins the terms for the binders further out
    refine reducible_abs fun u hu hr => ?_
    rw [inst_inst hus.fits]
    exact ih (.cons ⟨hu, hr⟩ hus)
  | cond _ _ _ ihg iha ihb => exact .cond (ihg hus).halts (iha hus) (ihb hus)
  | app _ ha ihf iha =>
    -- call by name: the argument goes in as it is, all it needs is not to point out of itself
    refine (ihf hus).2 _ (Fits.inst ?_ hus.fits) (iha hus)
    rw [Nat.zero_add, hus.length_eq]
    exact ha.fits

/-- **The contractions of a typed term come to an end**, whatever its free names. -/
theorem halts_of_hasType {Γ : String → Option Ty} (h : HasType Γ [] t T) : t.Halts := by
  have hr := (h.reducible .nil).halts
  have hfix : t.inst [] 0 = t := Fits.inst_eq h.fits []
  rwa [hfix] at hr

end SimplyTyped.Nameless
