import SimplyTyped.Batch
import SimplyTyped.Proofs.Normalization

/-!
# SimplyTyped.Proofs.Soundness — typed terms evaluate to values of their types

Contraction keeps types (`Term.Contracts.hasType`), for harmless terms under every context.  A closed typed term is
harmless and, as long as it is no value, has a head redex (`Term.isValue_of_contract`).  Its contractions come to an
end, so the evaluator finds a value of the type, and nothing that passes the check of a batch is ever stuck.  The
substitutions that a caller asks for keep types for the same reason as those of contractions (`Term.hasType_subst`).
-/

namespace SimplyTyped

namespace Nameless

/-- Contraction keeps types. -/
theorem HasType.of_contract {Γ : String → Option Ty} {t : Nameless} {s : Contraction} {T : Ty}
    (h : HasType Γ [] t T) (hs : t.contract = some s) : HasType Γ [] s.result T := by
  induction t generalizing s T with
  | cond g a b ihg _ _ =>
    cases h with
    | cond hg ha hb =>
      obtain ⟨p, rfl, rfl⟩ | ⟨q, hq, rfl⟩ := contract_cond_eq_some_iff.mp hs
      · cases p with
        | true => exact ha
        | false => exact hb
      · exact .cond (ihg hg hq) ha hb
  | app f a ihf _ =>
    cases h with
    | app hf ha =>
      obtain ⟨S, body, rfl, rfl⟩ | ⟨q, hq, rfl⟩ := contract_app_eq_some_iff.mp hs
      · cases hf with
        | abs hb => exact ha.inst (Δ := []) hb
      · exact .app (ihf hf hq) ha
  | unit | bool | bound | free | abs => simp [contract] at hs

end Nameless

namespace Term

open Typing

variable {Γ : Context} {t v : Term} {T : Ty} {c d : Int} {rs : List Term}

/-- Substitution without a mix-up keeps types. -/
theorem hasType_subst {u : Term} {x : String} {S : Ty} (hs : SupplyApart x u c) (hd : DrawsClear x u t c)
    (ht : HasType (Bindings.push x S Γ) t T) (hu : HasType Γ u S) : HasType Γ (subst x u t c).1 T := by
  have hn := (hasType_iff_nameless (Δ := [])).mp hu
  have hb := (hasType_iff_nameless (Δ := [(x, S)])).mp ht
  have he : (subst x u t c).1.nameless [] = (t.nameless [x]).inst [u.nameless []] 0 :=
    (nameless_subst hs hd List.not_mem_nil fun _ _ => List.not_mem_nil).trans (inst_nameless t [] x _).symm
  have hr : Nameless.HasType _ [] ((t.nameless [x]).inst [u.nameless []] 0) T := hn.inst (Δ := []) hb
  rw [← he] at hr
  exact (hasType_iff_nameless (Δ := [])).mpr hr

/-- Contraction of a harmless term keeps its type. -/
theorem hasType_of_contract {s : Contraction} (h : t.Harmless c) (ht : HasType Γ t T) (hs : t.contract c = some s) :
    HasType Γ s.result T := by
  have hn := ((hasType_iff_nameless (Δ := [])).mp ht).of_contract (nameless_contract_of_contract h hs)
  exact (hasType_iff_nameless (Δ := [])).mpr hn

/-- Contractions of a harmless term keep its type. -/
theorem Contracts.hasType (hc : Contracts t c rs v d) (h : t.Harmless c) (ht : HasType Γ t T) : HasType Γ v T := by
  induction hc with
  | refl => exact ht
  | step hs _ ih => exact ih (h.of_contract hs) (hasType_of_contract h ht hs)

/-- What a harmless term evaluates to has its type. -/
theorem Evaluates.hasType {n : Nat} (he : Evaluates t c n v d) (h : t.Harmless c) (ht : HasType Γ t T) :
    HasType Γ v T := by
  obtain ⟨rs, hc, -, -⟩ := he.contracts
  exact hc.hasType h ht

/-- A harmless typed term evaluates, to a term of its type without a head redex. -/
theorem exists_evaluates_of_hasType (h : t.Harmless c) (ht : HasType Γ t T) :
    ∃ n v d, Evaluates t c n v d ∧ v.contract d = none ∧ v.Harmless d ∧ HasType Γ v T := by
  have hn := (hasType_iff_nameless (Δ := [])).mp ht
  obtain ⟨rs, v, d, hc, hv⟩ := exists_contracts_of_halts (Nameless.halts_of_hasType hn) h
  exact ⟨_, v, d, hc.evaluates hv, hv, hc.harmless h, hc.hasType h ht⟩

/-! ## Closed terms -/

theorem freeVars_eq_nil_of_hasType (ht : HasType [] t T) : t.freeVars = [] :=
  List.eq_nil_iff_forall_not_mem.mpr fun _ hx => Bool.false_ne_true (isSome_lookup_of_hasType ht hx)

theorem harmless_of_hasType (ht : HasType [] t T) (c : Int) : t.Harmless c := .inl (freeVars_eq_nil_of_hasType ht)

/-- What the values of a type look like. -/
def Canonical : Ty → Term → Prop
  | .unit, v => v = unit
  | .bool, v => ∃ p, v = bool p
  | .arrow S _, v => ∃ x body, v = abs x S body

theorem canonical_of_isValue (ht : HasType Γ v T) (hv : v.isValue = true) : Canonical T v := by
  cases ht with
  | unit => rfl
  | bool => exact ⟨_, rfl⟩
  | abs => exact ⟨_, _, rfl⟩
  | var | cond | app => cases hv

/-- A closed typed term without a head redex is a value. -/
theorem isValue_of_contract (ht : HasType [] t T) (hc : t.contract c = none) : t.isValue = true := by
  induction t generalizing T with
  | unit | bool | abs => rfl
  | var x =>
    cases ht with
    | var hx => cases hx
  | cond g a b ihg _ _ =>
    cases ht with
    | cond hg ha hb =>
      obtain ⟨hp, hc⟩ := contract_cond_eq_none_iff.mp hc
      obtain ⟨p, rfl⟩ := canonical_of_isValue hg (ihg hg hc)
      cases hp
  | app f a ihf _ =>
    cases ht with
    | app hf ha =>
      obtain ⟨hl, hc⟩ := contract_app_eq_none_iff.mp hc
      obtain ⟨x, body, rfl⟩ := canonical_of_isValue hf (ihf hf hc)
      cases hl

/-- What a closed typed term evaluates to is a value of its type. -/
theorem Evaluates.isValue {n : Nat} (he : Evaluates t c n v d) (ht : HasType [] t T) :
    v.isValue = true ∧ HasType [] v T := by
  obtain ⟨rs, -, hv, -⟩ := he.contracts
  have hvT := he.hasType (harmless_of_hasType ht c) ht
  exact ⟨isValue_of_contract hvT hv, hvT⟩

end Term

/-! ## The evaluator and the batch -/

open Term

theorem typeOf_eq_ok_iff {t : Term} {T : Ty} : typeOf t = .ok T ↔ Typing.HasType [] t T := by
  rw [← Typing.infer_eq_ok_iff, typeOf]
  cases Typing.infer [] t <;> simp

/-- With the check on, an execution changes nothing and prints nothing: what the check lets through is never stuck. -/
theorem execute_of_check {b : Batch} (hb : b.options.check = true) (t : Term) :
    Batch.execute t b = ⟨b, "", do
      let T ← typeOf t
      let r ← evaluate b.options.fuel b.options.maxSteps t
      return ⟨t, some T, r.1, r.2⟩⟩ := by
  unfold Batch.execute
  rw [Action.bind_of_ok (s := b) (a := b) rfl]
  simp only [Action.get, hb, if_true]
  cases hT : typeOf t with
  | error e =>
    rw [Action.bind_of_error (e := e) rfl]
    rfl
  | ok T =>
    rw [Action.bind_of_ok (a := some T) rfl]
    cases hr : evaluate b.options.fuel b.options.maxSteps t with
    | error e =>
      rw [Action.bind_of_error (e := e) rfl]
      rfl
    | ok r =>
      obtain ⟨d, he⟩ := evaluates_of_evaluate hr
      have hv := (he.isValue (typeOf_eq_ok_iff.mp hT)).1
      rw [Action.bind_of_ok (a := r) rfl]
      simp only [hv, Bool.not_true, Bool.false_eq_true, if_false]
      rfl

/-- **Type soundness with termination.**  A term with a type evaluates, in some number of steps and whatever its names
are: without a bound once the fuel is enough for the depth of the recursion, and within every bound that is not below
the steps.  What it comes to is a closed value of that very type and of the shape that goes with it.  An execution with
the check on prints no warning for any term, typed or not. -/
theorem type_soundness (t : Term) :
    (∀ T, typeOf t = .ok T → ∃ v n,
      (∃ depth, ∀ fuel, depth ≤ fuel → evaluate fuel none t = .ok (v, n)) ∧
      (∀ N : Int, n ≤ N → ∀ fuel, evaluate fuel (some N) t = .ok (v, n)) ∧
      v.isValue = true ∧ v.freeVars = [] ∧ typeOf v = .ok T ∧ Canonical T v) ∧
    ∀ b : Batch, b.options.check = true → (Batch.execute t b).printed = "" := by
  refine ⟨fun T hT => ?_, fun b hb => by rw [execute_of_check hb]⟩
  have ht := typeOf_eq_ok_iff.mp hT
  obtain ⟨n, v, d, he, -, -, -⟩ := exists_evaluates_of_hasType (.inl (freeVars_eq_nil_of_hasType ht)) ht
  obtain ⟨hv, hvT⟩ := he.isValue ht
  refine ⟨v, n, exists_evaluate_of_evaluates he, fun N hN fuel => evaluate_of_evaluates he hN fuel, hv, ?_, ?_, ?_⟩
  · exact freeVars_eq_nil_of_hasType hvT
  · exact typeOf_eq_ok_iff.mpr hvT
  · exact canonical_of_isValue hvT hv

/-- A function that is applied to an abstraction, with a name of the supply for its parameter. -/
theorem type_soundness_of_application :
    let t := app (abs "#0" (.arrow .bool .unit) (app (var "#0") (bool true))) (abs "x" .bool unit)
    let b := Batch.start (Reporter.start .plain true) "terms" false ⟨false, true, some 4, 0⟩
    typeOf t = .ok .unit ∧ b.options.check = true ∧
      (∃ v n, (∃ depth, ∀ fuel, depth ≤ fuel → evaluate fuel none t = .ok (v, n)) ∧
        (∀ N : Int, n ≤ N → ∀ fuel, evaluate fuel (some N) t = .ok (v, n)) ∧
        v.isValue = true ∧ v.freeVars = [] ∧ typeOf v = .ok .unit ∧ Canonical .unit v) ∧
      (Batch.execute t b).printed = "" := by
  intro t b
  have hT : typeOf t = .ok .unit := typeOf_eq_ok_iff.mpr (.app (.abs (.app (.var rfl) .bool)) (.abs .unit))
  have h := type_soundness t
  exact ⟨hT, rfl, h.1 .unit hT, h.2 b rfl⟩

/-! ## Open terms -/

/-- **Open typed terms evaluate and keep their types.**  A term without names of the supply that has a type under a
context evaluates without a bound, and each value that the evaluator comes to, with a bound or without, has that type
under the same context. -/
theorem open_type_soundness (Γ : Context) (t : Term) (T : Ty) (hf : t.FreshFrom 0) (hT : Typing.infer Γ t = .ok T) :
    (∃ v n, Returns t v n ∧ Typing.infer Γ v = .ok T) ∧
    ∀ fuel limit v n, evaluate fuel limit t = .ok (v, n) → Typing.infer Γ v = .ok T := by
  have ht := Typing.infer_eq_ok_iff.mp hT
  constructor
  · obtain ⟨n, v, d, he, -, -, hv⟩ := exists_evaluates_of_hasType (.inr hf) ht
    exact ⟨v, n, returns_iff_evaluates.mpr ⟨d, he⟩, Typing.infer_eq_ok_iff.mpr hv⟩
  · intro fuel limit v n hv
    obtain ⟨d, he⟩ := evaluates_of_evaluate hv
    exact Typing.infer_eq_ok_iff.mpr (he.hasType (.inr hf) ht)

/-- The argument `y` asks for another name of the inner binder, and the value is stuck on `f`. -/
theorem open_type_soundness_of_stuck_application :
    let Γ : Context := [("f", .arrow .bool .unit), ("y", .bool)]
    let t := app (app (abs "x" .bool (abs "y" .bool (app (var "f") (var "x")))) (var "y")) (bool true)
    t.FreshFrom 0 ∧ Typing.infer Γ t = .ok .unit ∧
      (∃ v n, Returns t v n ∧ Typing.infer Γ v = .ok .unit) ∧
      ∀ fuel limit v n, evaluate fuel limit t = .ok (v, n) → Typing.infer Γ v = .ok .unit := by
  intro Γ t
  have hf : t.FreshFrom 0 := freshFrom_of_head? (by decide) 0
  have hT : Typing.infer Γ t = .ok .unit := rfl
  exact ⟨hf, hT, open_type_soundness Γ t .unit hf hT⟩

/-! ## Substitution -/

/-- **Substitution keeps types.**  A replacement of the type that the context gives to the name, free names of its own
or not, leaves the type of a term as it is, whatever the term binds on the way to the name, as long as no name of the
supply occurs. -/
theorem infer_substitute (Γ : Context) (x : String) (S T : Ty) (t u : Term) (hx : ∀ k, (0 : Int) ≤ k → fresh k ≠ x)
    (ht : t.FreshFrom 0) (hu : u.FreshFrom 0) (hT : Typing.infer (Bindings.push x S Γ) t = .ok T)
    (hS : Typing.infer Γ u = .ok S) : Typing.infer Γ (substitute x u t) = .ok T := by
  have htT := Typing.infer_eq_ok_iff.mp hT
  have huS := Typing.infer_eq_ok_iff.mp hS
  have hr := hasType_subst (supplyApart_of_freshFrom hx hu) (drawsClear_of_freshFrom ht x u) htT huS
  exact Typing.infer_eq_ok_iff.mpr hr

/-- The replacement `y` stands for a truth value outside of two binders `y` of other types, and both are renamed. -/
theorem infer_substitute_below_shadowing_binders :
    let Γ : Context := [("y", .bool)]
    let t := abs "y" (.arrow .bool .unit) (app (var "y") (app (abs "y" .unit (var "x")) unit))
    (∀ k, (0 : Int) ≤ k → fresh k ≠ "x") ∧ t.FreshFrom 0 ∧ (var "y").FreshFrom 0 ∧
      Typing.infer (Bindings.push "x" .bool Γ) t = .ok (.arrow (.arrow .bool .unit) .unit) ∧
      Typing.infer Γ (var "y") = .ok .bool ∧
      Typing.infer Γ (substitute "x" (var "y") t) = .ok (.arrow (.arrow .bool .unit) .unit) := by
  intro Γ t
  have hx : ∀ k, (0 : Int) ≤ k → fresh k ≠ "x" := fun k _ => fresh_ne_of_head? (by decide) k
  have ht : t.FreshFrom 0 := freshFrom_of_head? (by decide) 0
  have hu : (var "y").FreshFrom 0 := freshFrom_of_head? (by decide) 0
  have hT : Typing.infer (Bindings.push "x" .bool Γ) t = .ok (.arrow (.arrow .bool .unit) .unit) := rfl
  have hS : Typing.infer Γ (var "y") = .ok .bool := rfl
  exact ⟨hx, ht, hu, hT, hS, infer_substitute Γ "x" .bool _ t (var "y") hx ht hu hT hS⟩

end SimplyTyped
