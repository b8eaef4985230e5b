import SimplyTyped.Proofs.SmallStep
import SimplyTyped.Proofs.Substitution

/-!
# SimplyTyped.Proofs.NamelessStep — contraction of nameless terms

The nameless reference contracts the same redexes with `Nameless.inst` in the place of substitution, so it draws no
names and captures nothing.  `Term.contract` keeps step with it on harmless terms: the closed ones, whose arguments
ask for no renaming, and those without a name that the supply can still hand out (`contract_nameless`).  Contraction
keeps a term harmless, so the two stay in step to the end (`exists_contracts_of_halts`).
-/

namespace SimplyTyped

namespace Nameless

/-- The truth value of a literal. -/
def truth? : Nameless → Option Bool
  | bool p => some p
  | _ => none

/-- The body of an abstraction. -/
def lambda? : Nameless → Option Nameless
  | abs _ body => some body
  | _ => none

/-- A contraction of the head redex of a nameless term. -/
structure Contraction where
  contractum : Nameless
  result : Nameless

/-- The contraction of the head redex, if there is one. -/
@[simp]
def contract : Nameless → Option Contraction
  | cond g a b =>
    match g.truth? with
    | some p => let r := if p then a else b; some ⟨r, r⟩
    | none => g.contract.map fun s => { s with result := cond s.result a b }
  | app f a =>
    match f.lambda? with
    | some body => let r := body.inst [a] 0; some ⟨r, r⟩
    | none => f.contract.map fun s => { s with result := app s.result a }
  | _ => none

/-- The contractions come to an end. -/
inductive Halts : Nameless → Prop
  | rest {t : Nameless} : t.contract = none → Halts t
  | step {t : Nameless} {s : Contraction} : t.contract = some s → Halts s.result → Halts t

variable {t f a b g : Nameless} {x : String} {us : List Nameless} {k : Nat} {s : Contraction}

theorem truth?_eq_some {p : Bool} (h : t.truth? = some p) : t = bool p := by
  cases t with
  | bool q => exact congrArg bool (Option.some.inj h)
  | unit | bound | free | abs | cond | app => cases h

theorem lambda?_eq_some {body : Nameless} (h : t.lambda? = some body) : ∃ S, t = abs S body := by
  cases t with
  | abs S b => exact ⟨S, congrArg (abs S) (Option.some.inj h)⟩
  | unit | bool | bound | free | cond | app => cases h

theorem truth?_of_contract (h : t.contract = some s) : t.truth? = none := by
  cases t with
  | bool p => simp [contract] at h
  | unit | bound | free | abs | cond | app => rfl

theorem lambda?_of_contract (h : t.contract = some s) : t.lambda? = none := by
  cases t with
  | abs S body => simp [contract] at h
  | unit | bool | bound | free | cond | app => rfl

theorem contract_cond_eq_some_iff :
    (cond g a b).contract = some s ↔
      (∃ p, g = bool p ∧ s = ⟨if p then a else b, if p then a else b⟩) ∨
        ∃ q, g.contract = some q ∧ s = ⟨q.contractum, cond q.result a b⟩ := by
  constructor
  · intro h
    rw [contract] at h
    cases hg : g.truth? with
    | some p =>
      rw [hg] at h
      exact .inl ⟨p, truth?_eq_some hg, (Option.some.inj h).symm⟩
    | none =>
      rw [hg, Option.map_eq_some_iff] at h
      obtain ⟨q, hq, rfl⟩ := h
      exact .inr ⟨q, hq, rfl⟩
  · rintro (⟨p, rfl, rfl⟩ | ⟨q, hq, rfl⟩)
    · rfl
    · rw [contract, truth?_of_contract hq, hq]
      rfl

theorem contract_app_eq_some_iff :
    (app f a).contract = some s ↔
      (∃ S body, f = abs S body ∧ s = ⟨body.inst [a] 0, body.inst [a] 0⟩) ∨
        ∃ q, f.contract = some q ∧ s = ⟨q.contractum, app q.result a⟩ := by
  constructor
  · intro h
    rw [contract] at h
    cases hf : f.lambda? with
    | some body =>
      obtain ⟨S, hS⟩ := lambda?_eq_some hf
      rw [hf] at h
      exact .inl ⟨S, body, hS, (Option.some.inj h).symm⟩
    | none =>
      rw [hf, Option.map_eq_some_iff] at h
      obtain ⟨q, hq, rfl⟩ := h
      exact .inr ⟨q, hq, rfl⟩
  · rintro (⟨S, body, rfl, rfl⟩ | ⟨q, hq, rfl⟩)
    · rfl
    · rw [contract, lambda?_of_contract hq, hq]
      rfl

theorem contract_cond_eq_none_iff : (cond g a b).contract = none ↔ g.truth? = none ∧ g.contract = none := by
  rw [contract]
  cases hg : g.truth? <;> simp

theorem contract_app_eq_none_iff : (app f a).contract = none ↔ f.lambda? = none ∧ f.contract = none := by
  rw [contract]
  cases hf : f.lambda? <;> simp

theorem mem_frees_inst (h : x ∈ (t.inst us k).frees) : x ∈ t.frees ∨ ∃ u ∈ us, x ∈ u.frees := by
  induction t generalizing k with
  | bound i =>
    rw [inst] at h
    split at h
    · cases h
    · cases hu : us[i - k]? with
      | none =>
        rw [hu] at h
        cases h
      | some u =>
        rw [hu] at h
        exact .inr ⟨u, List.mem_of_getElem? hu, h⟩
  | abs S body ih => exact ih h
  | cond g a b ihg iha ihb =>
    simp only [inst, frees, List.mem_append] at h ⊢
    rcases h with (h | h) | h
    · exact (ihg h).imp_left (.inl ∘ .inl)
    · exact (iha h).imp_left (.inl ∘ .inr)
    · exact (ihb h).imp_left .inr
  | app f a ihf iha =>
    simp only [inst, frees, List.mem_append] at h ⊢
    rcases h with h | h
    · exact (ihf h).imp_left .inl
    · exact (iha h).imp_left .inr
  | unit | bool | free => exact .inl h

theorem mem_frees_of_contract (hs : t.contract = some s) (h : x ∈ s.result.frees) : x ∈ t.frees := by
  induction t generalizing s with
  | cond g a b ihg _ _ =>
    simp only [frees, List.mem_append]
    obtain ⟨p, rfl, rfl⟩ | ⟨q, hq, rfl⟩ := contract_cond_eq_some_iff.mp hs
    · cases p with
      | true => exact .inl (.inr h)
      | false => exact .inr h
    · simp only [frees, List.mem_append] at h
      exact h.imp_left (Or.imp_left (ihg hq))
  | app f a ihf _ =>
    simp only [frees, List.mem_append]
    obtain ⟨S, body, rfl, rfl⟩ | ⟨q, hq, rfl⟩ := contract_app_eq_some_iff.mp hs
    · rcases mem_frees_inst h with h | ⟨u, hu, h⟩
      · exact .inl h
      · exact .inr (List.mem_singleton.mp hu ▸ h)
    · simp only [frees, List.mem_append] at h
      exact h.imp_left (ihf hq)
  | unit | bool | bound | free | abs => simp [contract] at hs

end Nameless

/-! ## The two in step -/

namespace Term

/-- No contraction of the term can capture: it has no free names, or none that the supply can still hand out. -/
def Harmless (t : Term) (cursor : Int) : Prop := t.freeVars = [] ∨ t.FreshFrom cursor

/-- The contraction without the names of bound variables. -/
def Contraction.nameless (s : Contraction) : Nameless.Contraction :=
  ⟨s.contractum.nameless [], s.result.nameless []⟩

variable {t f a b g : Term} {c : Int} {s : Contraction}

theorem Harmless.guard (h : (cond g a b).Harmless c) : g.Harmless c := by
  rcases h with h | h
  · simp only [freeVars, List.append_eq_nil_iff] at h
    exact .inl h.1.1
  · exact .inr (freshFrom_cond_iff.mp h).1

theorem Harmless.function (h : (app f a).Harmless c) : f.Harmless c := by
  rcases h with h | h
  · simp only [freeVars, List.append_eq_nil_iff] at h
    exact .inl h.1
  · exact .inr (freshFrom_app_iff.mp h).1

/-- The contraction of a harmless redex is right. -/
theorem Harmless.nameless_subst {x : String} {S : Ty} {body : Term} (h : (app (abs x S body) a).Harmless c) :
    (subst x a body c).1.nameless [] = (body.nameless [x]).inst [a.nameless []] 0 := by
  refine Eq.trans ?_ (inst_nameless body [] x (a.nameless [])).symm
  rcases h with h | h
  · simp only [freeVars, List.append_eq_nil_iff] at h
    exact Term.nameless_subst (supplyApart_of_closed h.2 x c) (drawsClear_of_closed h.2 x body c) List.not_mem_nil
      fun _ _ => List.not_mem_nil
  · obtain ⟨hf, ha⟩ := freshFrom_app_iff.mp h
    obtain ⟨hx, hb⟩ := freshFrom_abs_iff.mp hf
    exact Term.nameless_subst (supplyApart_of_freshFrom hx ha) (drawsClear_of_freshFrom hb x a) List.not_mem_nil
      fun _ _ => List.not_mem_nil

theorem truth?_nameless (t : Term) : (t.nameless []).truth? = t.truth? := by
  cases t <;> rfl

theorem lambda?_nameless (t : Term) :
    (t.nameless []).lambda? = t.lambda?.map fun l => l.2.nameless [l.1] := by
  cases t <;> rfl

/-- **A harmless term and its nameless form are contracted alike.** -/
theorem contract_nameless (h : t.Harmless c) :
    (t.nameless []).contract = (t.contract c).map Contraction.nameless := by
  induction t with
  | unit | bool | var | abs => rfl
  | cond g a b ihg _ _ =>
    rw [nameless, Nameless.contract, contract, truth?_nameless, ihg h.guard]
    cases hg : g.truth? with
    | some p => cases p <;> rfl
    | none =>
      simp only [Option.map_map]
      rfl
  | app f a ihf _ =>
    rw [nameless, Nameless.contract, contract, lambda?_nameless, ihf h.function]
    cases hf : f.lambda? with
    | some l =>
      obtain ⟨S, rfl⟩ := lambda?_eq_some hf
      have hr := h.nameless_subst
      simp only [Option.map_some, Contraction.nameless, hr]
    | none =>
      simp only [Option.map_none, Option.map_map]
      rfl

theorem nameless_contract_of_contract (h : t.Harmless c) (hs : t.contract c = some s) :
    (t.nameless []).contract = some s.nameless := by
  rw [contract_nameless h, hs, Option.map_some]

theorem cursor_le_contract (hs : t.contract c = some s) : c ≤ s.cursor := by
  induction t generalizing s with
  | cond g a b ihg _ _ =>
    obtain ⟨p, rfl, rfl⟩ | ⟨q, hq, rfl⟩ := contract_cond_eq_some_iff.mp hs
    · exact le_rfl
    · exact ihg (s := q) hq
  | app f a ihf _ =>
    obtain ⟨x, S, body, rfl, rfl⟩ | ⟨q, hq, rfl⟩ := contract_app_eq_some_iff.mp hs
    · exact cursor_le_subst x a body c
    · exact ihf (s := q) hq
  | unit | bool | var | abs => simp [contract] at hs

theorem FreshFrom.of_contract (h : t.FreshFrom c) (hs : t.contract c = some s) : s.result.FreshFrom s.cursor := by
  induction t generalizing s with
  | cond g a b ihg _ _ =>
    obtain ⟨hg, ha, hb⟩ := freshFrom_cond_iff.mp h
    obtain ⟨p, rfl, rfl⟩ | ⟨q, hq, rfl⟩ := contract_cond_eq_some_iff.mp hs
    · cases p with
      | true => exact ha
      | false => exact hb
    · have hc := cursor_le_contract hq
      exact freshFrom_cond_iff.mpr ⟨ihg hg hq, ha.mono hc, hb.mono hc⟩
  | app f a ihf _ =>
    obtain ⟨hf, ha⟩ := freshFrom_app_iff.mp h
    obtain ⟨x, S, body, rfl, rfl⟩ | ⟨q, hq, rfl⟩ := contract_app_eq_some_iff.mp hs
    · exact (freshFrom_abs_iff.mp hf).2.subst ha x
    · have hc := cursor_le_contract hq
      exact freshFrom_app_iff.mpr ⟨ihf hf hq, ha.mono hc⟩
  | unit | bool | var | abs => simp [contract] at hs

/-- **Contraction keeps a term harmless.** -/
theorem Harmless.of_contract (h : t.Harmless c) (hs : t.contract c = some s) : s.result.Harmless s.cursor := by
  have hn := nameless_contract_of_contract h hs
  rcases h with h | h
  -- that a closed term stays closed is seen on the nameless side
  · rw [freeVars_eq_nil_iff, List.eq_nil_iff_forall_not_mem] at h
    refine .inl (freeVars_eq_nil_iff.mpr (List.eq_nil_iff_forall_not_mem.mpr fun x hx => h x ?_))
    exact Nameless.mem_frees_of_contract hn hx
  · exact .inr (h.of_contract hs)

/-- Contractions keep a term harmless. -/
theorem Contracts.harmless {v : Term} {d : Int} {rs : List Term} (hc : Contracts t c rs v d) (h : t.Harmless c) :
    v.Harmless d := by
  induction hc with
  | refl => exact h
  | step hs _ ih => exact ih (h.of_contract hs)

/-- A harmless term is contracted to terms with no other free names. -/
theorem Contracts.mem_freeVars {v : Term} {x : String} {d : Int} {rs : List Term} (hc : Contracts t c rs v d)
    (h : t.Harmless c) (hx : x ∈ v.freeVars) : x ∈ t.freeVars := by
  induction hc with
  | refl => exact hx
  | @step t v c d s rs hs _ ih =>
    have hr : x ∈ (s.result.nameless []).frees :=
      mem_frees_nameless.mpr ⟨ih (h.of_contract hs) hx, List.not_mem_nil⟩
    exact (mem_frees_nameless.mp (Nameless.mem_frees_of_contract (nameless_contract_of_contract h hs) hr)).1

/-- Contractions of a harmless term come to an end when those of its nameless form do. -/
theorem exists_contracts_of_halts (hh : (t.nameless []).Halts) (h : t.Harmless c) :
    ∃ rs v d, Contracts t c rs v d ∧ v.contract d = none := by
  generalize hn : t.nameless [] = n at hh
  induction hh generalizing t c with
  | @rest n hr =>
    subst hn
    rw [contract_nameless h, Option.map_eq_none_iff] at hr
    exact ⟨[], t, c, .refl, hr⟩
  | @step n s hs _ ih =>
    subst hn
    rw [contract_nameless h, Option.map_eq_some_iff] at hs
    obtain ⟨q, hq, rfl⟩ := hs
    obtain ⟨rs, v, d, hrs, hv⟩ := ih (h.of_contract hq) rfl
    exact ⟨_, v, d, .step hq hrs, hv⟩

end Term

end SimplyTyped
