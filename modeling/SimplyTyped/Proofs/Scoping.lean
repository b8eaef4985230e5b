import SimplyTyped.Proofs.Replacement
import SimplyTyped.Typing.Complaint

/-!
# SimplyTyped.Proofs.Scoping — what the checker reads of contexts and of names

Three notions of scope meet in the checker: the free names of a term, the lookup in a context, where the most recent
binding of a name hides the others, and the binder that a variable points to.  They agree.

* A context is read at the free names only (`Typing.infer_congr`): a typed term has all of them bound
  (`Typing.isSome_lookup_of_hasType`), and the only names that can be missed are free ones that the context does not
  bind (`Typing.free_of_unbound`).
* The names of bound variables decide nothing.  The checker goes through two terms that differ in these names step by
  step alike (`Typing.outcome_infer_congr`): below binders the contexts differ in names and agree in types, and a
  variable is looked up where its binder is.
-/

namespace SimplyTyped.Typing

open Term (resolve)

variable {Γ Δ Θ : Context} {t : Term} {T : Ty} {x y : String} {path : Path}

/-! ## Free names -/

theorem lookup_append_eq_none_iff :
    Bindings.lookup x (Δ ++ Γ) = none ↔ x ∉ Δ.map Prod.fst ∧ Bindings.lookup x Γ = none := by
  induction Δ with
  | nil => simp
  | cons binding Δ ih =>
    obtain ⟨y, S⟩ := binding
    rw [List.cons_append, Bindings.lookup, List.map_cons, List.mem_cons, not_or]
    by_cases hy : y = x
    · simp [hy]
    · rw [if_neg hy, ih, and_assoc]
      exact (and_iff_right (Ne.symm hy)).symm

/-- A name that is missed is free in the term and not bound by the context. -/
theorem free_of_unbound (h : infer Γ t = .error ⟨.unbound x, path⟩) :
    x ∈ t.freeVars ∧ Bindings.lookup x Γ = none := by
  obtain ⟨p, ⟨⟨q, hq, hb⟩, -⟩, -⟩ := infer_eq_error_iff.mp h
  cases hb with
  | unbound hx =>
    obtain ⟨hscope, hΓ⟩ := lookup_append_eq_none_iff.mp hx
    exact ⟨Term.mem_freeVars_iff.mpr ⟨p, hq, hscope⟩, hΓ⟩

/-! ## Names of bound variables -/

/-- What an error says apart from names and terms: the rule that is broken and the place to blame. -/
def Error.seen (e : Error) : Rule × Path := (e.fault.complaint.rule, e.culprit)

/-- The type, or the rule that is broken and the place to blame. -/
def outcome (r : Except Error Ty) : Except (Rule × Path) Ty := r.mapError Error.seen

section
variable {r r' : Except Error Ty} {next next' : Ty → Except Error Ty}

theorem outcome_inChild_congr (i : Nat) (h : outcome r = outcome r') :
    outcome (inChild i r) = outcome (inChild i r') := by
  cases r <;> cases r' <;> simp_all [outcome, Except.mapError, inChild, Error.seen, Error.below]

theorem outcome_bind_congr (h : outcome r = outcome r') (hn : ∀ S, outcome (next S) = outcome (next' S)) :
    outcome (r >>= next) = outcome (r' >>= next') := by
  cases r with
  | error e =>
    cases r' with
    | error e' => exact h
    | ok S => cases h
  | ok S =>
    cases r' with
    | error e' => cases h
    | ok S' =>
      obtain rfl : S = S' := Except.ok.inj h
      exact hn S

end

theorem outcome_applied (f a f' a' : Term) (F A : Ty) : outcome (applied f a F A) = outcome (applied f' a' F A) := by
  cases F with
  | arrow S T =>
    rw [applied, applied]
    split <;> rfl
  | unit | bool => rfl

/-- Only variables point to binders. -/
theorem exists_var_of_nameless {ρ σ : List String} (h : t.nameless ρ = resolve σ x) : ∃ y, t = .var y := by
  cases t with
  | var y => exact ⟨y, rfl⟩
  | unit | bool | abs | cond | app =>
    rw [resolve] at h
    split at h <;> cases h

/-- Variables of the same binder have the same type, and so have those without a binder. -/
theorem lookup_of_resolve (hS : Δ.map Prod.snd = Θ.map Prod.snd)
    (h : resolve (Δ.map Prod.fst) x = resolve (Θ.map Prod.fst) y) :
    Bindings.lookup x (Δ ++ Γ) = Bindings.lookup y (Θ ++ Γ) := by
  rw [lookup_append, lookup_append, ← hS]
  rw [resolve, resolve] at h
  cases hi : (Δ.map Prod.fst).idxOf? x with
  | none =>
    cases hj : (Θ.map Prod.fst).idxOf? y with
    | none =>
      rw [hi, hj] at h
      obtain rfl := Nameless.free.inj h
      rfl
    | some j =>
      rw [hi, hj] at h
      cases h
  | some i =>
    cases hj : (Θ.map Prod.fst).idxOf? y with
    | none =>
      rw [hi, hj] at h
      cases h
    | some j =>
      rw [hi, hj] at h
      obtain rfl := Nameless.bound.inj h
      rfl

theorem outcome_infer_var (h : Bindings.lookup x Γ = Bindings.lookup y Δ) :
    outcome (infer Γ (.var x)) = outcome (infer Δ (.var y)) := by
  rw [infer, infer, h]
  cases Bindings.lookup y Δ <;> rfl

/-- **The checker goes through alpha-equivalent terms alike**, under binders of the same types. -/
theorem outcome_infer_congr {t' : Term} (hS : Δ.map Prod.snd = Θ.map Prod.snd)
    (h : t.nameless (Δ.map Prod.fst) = t'.nameless (Θ.map Prod.fst)) :
    outcome (infer (Δ ++ Γ) t) = outcome (infer (Θ ++ Γ) t') := by
  -- terms of different forms have different nameless terms, so each form meets its like only
  induction t generalizing t' Δ Θ with
  | unit =>
    cases t' with
    | unit => rfl
    | var y =>
      obtain ⟨_, ⟨⟩⟩ := exists_var_of_nameless h
    | bool | abs | cond | app => cases h
  | bool p =>
    cases t' with
    | bool q => rfl
    | var y =>
      obtain ⟨_, ⟨⟩⟩ := exists_var_of_nameless h
    | unit | abs | cond | app => cases h
  | var x =>
    obtain ⟨y, rfl⟩ := exists_var_of_nameless h.symm
    exact outcome_infer_var (lookup_of_resolve hS h)
  | abs x S body ih =>
    cases t' with
    | abs y S' body' =>
      obtain ⟨rfl, hb⟩ := Nameless.abs.inj h
      have hS' : ((x, S) :: Δ).map Prod.snd = ((y, S) :: Θ).map Prod.snd := by simp [hS]
      exact outcome_bind_congr (outcome_inChild_congr 0 (ih hS' hb)) fun _ => rfl
    | var y =>
      obtain ⟨_, ⟨⟩⟩ := exists_var_of_nameless h
    | unit | bool | cond | app => cases h
  | cond g a b ihg iha ihb =>
    cases t' with
    | cond g' a' b' =>
      obtain ⟨hg, ha, hb⟩ := Nameless.cond.inj h
      rw [infer, infer]
      refine outcome_bind_congr (outcome_inChild_congr 0 (ihg hS hg)) fun G => ?_
      by_cases hG : G = .bool
      · rw [if_neg (not_not.mpr hG), if_neg (not_not.mpr hG)]
        refine outcome_bind_congr (outcome_inChild_congr 1 (iha hS ha)) fun A => ?_
        refine outcome_bind_congr (outcome_inChild_congr 2 (ihb hS hb)) fun B => ?_
        by_cases hAB : A = B
        · rw [if_neg (not_not.mpr hAB), if_neg (not_not.mpr hAB)]
        · rw [if_pos hAB, if_pos hAB]
          rfl
      · rw [if_pos hG, if_pos hG]
        rfl
    | var y =>
      obtain ⟨_, ⟨⟩⟩ := exists_var_of_nameless h
    | unit | bool | abs | app => cases h
  | app f a ihf iha =>
    cases t' with
    | app f' a' =>
      obtain ⟨hf, ha⟩ := Nameless.app.inj h
      rw [infer, infer]
      refine outcome_bind_congr (outcome_inChild_congr 0 (ihf hS hf)) fun F => ?_
      exact outcome_bind_congr (outcome_inChild_congr 1 (iha hS ha)) fun A => outcome_applied f a f' a' F A
    | var y =>
      obtain ⟨_, ⟨⟩⟩ := exists_var_of_nameless h
    | unit | bool | abs | cond => cases h

/-- **Typing reads the free names and no name of a bound variable.**  Contexts that agree on the free names of a term
have the same outcome, to the payload and the place of an error.  A type is given only when all free names are bound;
a name is reported as not bound only when it is free in the term and the context does not bind it.  Alpha-equivalent
terms have the same type, or break the same rule at the same place. -/
theorem infer_reads_free_names (Γ : Context) (t : Term) :
    (∀ Δ, (∀ x ∈ t.freeVars, Bindings.lookup x Γ = Bindings.lookup x Δ) → infer Γ t = infer Δ t) ∧
    (∀ T, infer Γ t = .ok T → ∀ x ∈ t.freeVars, (Bindings.lookup x Γ).isSome) ∧
    (∀ x path, infer Γ t = .error ⟨.unbound x, path⟩ → x ∈ t.freeVars ∧ Bindings.lookup x Γ = none) ∧
    ∀ t' : Term, t'.nameless [] = t.nameless [] → outcome (infer Γ t') = outcome (infer Γ t) :=
  ⟨fun _ h => infer_congr h, fun _ h _ hx => isSome_lookup_of_hasType (infer_eq_ok_iff.mp h) hx,
    fun _ _ h => free_of_unbound h, fun _ h => outcome_infer_congr (Δ := []) (Θ := []) rfl h⟩

/-- The binder `x` hides a binding of the context, and as `z` it hides one of the other context; without a binding the
free `y` is missed below it. -/
theorem infer_reads_free_names_around_binder :
    let t := Term.app (.abs "x" .bool (.cond (.var "x") (.var "y") (.var "x"))) (.var "y")
    let t' := Term.app (.abs "z" .bool (.cond (.var "z") (.var "y") (.var "z"))) (.var "y")
    let Γ : Context := [("y", .bool), ("x", .unit), ("y", .unit)]
    let Δ : Context := [("z", .unit), ("y", .bool)]
    (∀ x ∈ t.freeVars, Bindings.lookup x Γ = Bindings.lookup x Δ) ∧ infer Γ t = .ok .bool ∧ "y" ∈ t.freeVars ∧
      infer [("x", .unit)] t = .error ⟨.unbound "y", [0, 0, 1]⟩ ∧ t'.nameless [] = t.nameless [] ∧
      infer Γ t = infer Δ t ∧ (Bindings.lookup "y" Γ).isSome ∧
      Bindings.lookup "y" ([("x", .unit)] : Context) = none ∧ outcome (infer Γ t') = outcome (infer Γ t) := by
  intro t t' Γ Δ
  have hagree : ∀ x ∈ t.freeVars, Bindings.lookup x Γ = Bindings.lookup x Δ := by decide
  have hok : infer Γ t = .ok .bool := rfl
  have hy : "y" ∈ t.freeVars := by decide
  have hmissed : infer [("x", .unit)] t = .error ⟨.unbound "y", [0, 0, 1]⟩ := rfl
  have halpha : t'.nameless [] = t.nameless [] := by decide
  obtain ⟨hsame, hbound, -, hnames⟩ := infer_reads_free_names Γ t
  obtain ⟨-, -, hunbound, -⟩ := infer_reads_free_names [("x", .unit)] t
  exact ⟨hagree, hok, hy, hmissed, halpha, hsame Δ hagree, hbound .bool hok "y" hy, (hunbound "y" _ hmissed).2,
    hnames t' halpha⟩

end SimplyTyped.Typing
