import Mathlib
import SimplyTyped.Term

/-!
# SimplyTyped.Proofs.Nameless — terms whose bound variables have no names

A nameless term points to a binder by the number of binders between, and keeps names for its free variables only.
`Term.nameless` drops the names of a term's bound variables; two terms are alpha-equivalent when that makes them
equal.  Nothing can be captured in a nameless term, so putting a term in the place of a free name (`put`) or of a
bound variable (`inst`) is plain recursion here.

* `nameless_congr`: the translation reads no more of a scope than where the free names are bound in it.
* `inst_nameless`: putting a term for a bound variable is putting it for the name of its binder.
-/

namespace SimplyTyped

/-- A term with numbers in place of the names of bound variables. -/
inductive Nameless where
  | unit
  | bool (value : Bool)
  /-- The variable of the binder that is `index` binders away. -/
  | bound (index : Nat)
  | free (name : String)
  | abs (paramType : Ty) (body : Nameless)
  | cond (guard thenBranch elseBranch : Nameless)
  | app (function argument : Nameless)
  deriving DecidableEq, Inhabited

namespace Nameless

/-- The names of the free variables. -/
def frees : Nameless → List String
  | free x => [x]
  | abs _ b => b.frees
  | cond g a b => g.frees ++ a.frees ++ b.frees
  | app f a => f.frees ++ a.frees
  | _ => []

/-- The term with `u` for the free variable `x`. -/
def put (t : Nameless) (x : String) (u : Nameless) : Nameless :=
  match t with
  | free y => if y = x then u else free y
  | abs ty b => abs ty (b.put x u)
  | cond g a b => cond (g.put x u) (a.put x u) (b.put x u)
  | app f a => app (f.put x u) (a.put x u)
  | t => t

/-- The term with `us` for the variables of the binders around it, the first `depth` of them left out. -/
def inst (us : List Nameless) (depth : Nat) : Nameless → Nameless
  | bound i => if i < depth then bound i else (us[i - depth]?).getD (bound i)
  | abs ty b => abs ty (b.inst us (depth + 1))
  | cond g a b => cond (g.inst us depth) (a.inst us depth) (b.inst us depth)
  | app f a => app (f.inst us depth) (a.inst us depth)
  | t => t

/-- No bound variable points further than to the `depth` nearest binders around the term. -/
def Fits (depth : Nat) : Nameless → Prop
  | bound i => i < depth
  | abs _ b => b.Fits (depth + 1)
  | cond g a b => g.Fits depth ∧ a.Fits depth ∧ b.Fits depth
  | app f a => f.Fits depth ∧ a.Fits depth
  | _ => True

variable {t u : Nameless} {us : List Nameless} {k : Nat}

theorem Fits.mono {j : Nat} (h : t.Fits j) (hjk : j ≤ k) : t.Fits k := by
  induction t generalizing j k with
  | bound i => exact Nat.lt_of_lt_of_le h hjk
  | abs ty b ih => exact ih (j := j + 1) h (by omega)
  | cond g a b ihg iha ihb => exact ⟨ihg h.1 hjk, iha h.2.1 hjk, ihb h.2.2 hjk⟩
  | app f a ihf iha => exact ⟨ihf h.1 hjk, iha h.2 hjk⟩
  | unit | bool | free => trivial

theorem Fits.inst_eq (h : t.Fits k) (us : List Nameless) : t.inst us k = t := by
  induction t generalizing k with
  | bound i => exact if_pos h
  | abs ty b ih => rw [inst, ih h]
  | cond g a b ihg iha ihb => rw [inst, ihg h.1, iha h.2.1, ihb h.2.2]
  | app f a ihf iha => rw [inst, ihf h.1, iha h.2]
  | unit | bool | free => rfl

/-- What is left after all binders but the nearest `k` were given terms fits these `k`. -/
theorem Fits.inst (h : t.Fits (k + us.length)) (hus : ∀ u ∈ us, u.Fits 0) : (t.inst us k).Fits k := by
  induction t generalizing k with
  | bound i =>
    rw [Nameless.inst]
    have hi : i < k + us.length := h
    by_cases hk : i < k
    · rw [if_pos hk]
      exact hk
    · rw [if_neg hk, List.getElem?_eq_getElem (by omega), Option.getD_some]
      exact (hus _ (List.getElem_mem _)).mono (Nat.zero_le k)
  | abs ty b ih =>
    have hb : b.Fits (k + us.length + 1) := h
    exact ih (k := k + 1) (by rwa [Nat.add_right_comm])
  | cond g a b ihg iha ihb => exact ⟨ihg h.1, iha h.2.1, ihb h.2.2⟩
  | app f a ihf iha => exact ⟨ihf h.1, iha h.2⟩
  | unit | bool | free => trivial

/-- Terms for the binders further out and then one for the nearest are all put in at once. -/
theorem inst_inst (hus : ∀ s ∈ us, s.Fits 0) (u t : Nameless) (k : Nat) :
    (t.inst us (k + 1)).inst [u] k = t.inst (u :: us) k := by
  induction t generalizing k with
  | bound i =>
    rcases Nat.lt_trichotomy i k with hi | rfl | hi
    · simp only [inst, if_pos hi, if_pos (show i < k + 1 by omega)]
    · simp [inst]
    · obtain ⟨j, rfl⟩ : ∃ j, i = k + 1 + j := ⟨i - (k + 1), by omega⟩
      have h1 : ¬ k + 1 + j < k := by omega
      have h2 : k + 1 + j - k = j + 1 := by omega
      simp only [inst, if_neg (show ¬ k + 1 + j < k + 1 by omega), if_neg h1, h2, List.getElem?_cons_succ,
        Nat.add_sub_cancel_left]
      cases hj : us[j]? with
      | none => simp [inst, h1, h2]
      | some s => exact ((hus s (List.mem_of_getElem? hj)).mono (Nat.zero_le k)).inst_eq [u]
  | abs ty b ih => rw [inst, inst, inst, ih (k + 1)]
  | cond g a b ihg iha ihb => rw [inst, inst, inst, ihg, iha, ihb]
  | app f a ihf iha => rw [inst, inst, inst, ihf, iha]
  | unit | bool | free => rfl

theorem put_eq_self {x : String} (h : x ∉ t.frees) : t.put x u = t := by
  induction t with
  | free y =>
    have hy : y ≠ x := fun e => h (by simp [frees, e])
    exact if_neg hy
  | abs ty b ih => rw [put, ih h]
  | cond g a b ihg iha ihb =>
    simp only [frees, List.mem_append, not_or] at h
    rw [put, ihg h.1.1, iha h.1.2, ihb h.2]
  | app f a ihf iha =>
    simp only [frees, List.mem_append, not_or] at h
    rw [put, ihf h.1, iha h.2]
  | unit | bool | bound => rfl

end Nameless

/-! ## The translation -/

namespace Term

open Nameless

/-- What a name stands for below binders of the names of a scope, the nearest first. -/
def resolve (scope : List String) (x : String) : Nameless :=
  match scope.idxOf? x with
  | some i => bound i
  | none => free x

/-- The term without the names of its bound variables. -/
def nameless (scope : List String) : Term → Nameless
  | unit => .unit
  | bool b => .bool b
  | var x => resolve scope x
  | abs x ty body => .abs ty (body.nameless (x :: scope))
  | cond g a b => .cond (g.nameless scope) (a.nameless scope) (b.nameless scope)
  | app f a => .app (f.nameless scope) (a.nameless scope)

variable {x y : String} {ρ σ : List String}

theorem idxOf?_cons_self (x : String) (ρ : List String) : (x :: ρ).idxOf? x = some 0 := by
  simp [List.idxOf?_cons]

theorem idxOf?_cons_of_ne (h : y ≠ x) (ρ : List String) : (y :: ρ).idxOf? x = (ρ.idxOf? x).map (· + 1) := by
  simp [List.idxOf?_cons, h]

theorem idxOf?_cons_congr (y : String) (h : ρ.idxOf? x = σ.idxOf? x) :
    (y :: ρ).idxOf? x = (y :: σ).idxOf? x := by
  rw [List.idxOf?_cons, List.idxOf?_cons, h]

theorem idxOf?_append (ρ σ : List String) (x : String) :
    (ρ ++ σ).idxOf? x = (ρ.idxOf? x).or ((σ.idxOf? x).map (· + ρ.length)) := List.findIdx?_append

theorem resolve_of_notMem (h : x ∉ ρ) : resolve ρ x = free x := by
  rw [resolve, List.idxOf?_eq_none_iff.mpr h]

/-- The translation depends on a scope through the places of the free names in it. -/
theorem nameless_congr {t : Term} (h : ∀ x ∈ t.freeVars, ρ.idxOf? x = σ.idxOf? x) :
    t.nameless ρ = t.nameless σ := by
  induction t generalizing ρ σ with
  | var y => simp only [nameless, resolve, h y (by simp [freeVars])]
  | abs y ty body ih =>
    rw [nameless, nameless, ih]
    intro x hx
    by_cases hxy : x = y
    · subst hxy
      rw [idxOf?_cons_self, idxOf?_cons_self]
    · exact idxOf?_cons_congr y (h x (by simp [freeVars, hx, hxy]))
  | cond g a b ihg iha ihb =>
    rw [nameless, nameless, ihg fun x hx => h x (by simp [freeVars, hx]),
      iha fun x hx => h x (by simp [freeVars, hx]), ihb fun x hx => h x (by simp [freeVars, hx])]
  | app f a ihf iha =>
    rw [nameless, nameless, ihf fun x hx => h x (by simp [freeVars, hx]),
      iha fun x hx => h x (by simp [freeVars, hx])]
  | unit | bool => rfl

theorem nameless_of_disjoint {t : Term} (h : ∀ x ∈ t.freeVars, x ∉ ρ) : t.nameless ρ = t.nameless [] :=
  nameless_congr fun x hx => by rw [List.idxOf?_eq_none_iff.mpr (h x hx), List.idxOf?_nil]

/-- The free names that are not in scope stay free. -/
theorem mem_frees_nameless {t : Term} : x ∈ (t.nameless ρ).frees ↔ x ∈ t.freeVars ∧ x ∉ ρ := by
  induction t generalizing ρ with
  | var y =>
    rw [nameless, resolve]
    cases h : ρ.idxOf? y with
    | none =>
      have hy : y ∉ ρ := List.idxOf?_eq_none_iff.mp h
      simp only [frees, freeVars, List.mem_singleton]
      exact ⟨fun e => ⟨e, e ▸ hy⟩, fun e => e.1⟩
    | some i =>
      have hy : y ∈ ρ := List.isSome_idxOf?.mp (by simp [h])
      simp only [frees, freeVars, List.mem_singleton, List.not_mem_nil, false_iff, not_and, not_not]
      exact fun e => e ▸ hy
  | abs y ty body ih =>
    rw [nameless, frees, ih, freeVars, List.mem_filter, List.mem_cons]
    simp only [not_or, decide_not, Bool.not_eq_eq_eq_not, Bool.not_true, decide_eq_false_iff_not]
    exact ⟨fun h => ⟨⟨h.1, h.2.1⟩, h.2.2⟩, fun h => ⟨h.1.1, h.1.2, h.2⟩⟩
  | cond g a b ihg iha ihb =>
    simp only [nameless, frees, freeVars, List.mem_append, ihg, iha, ihb]
    tauto
  | app f a ihf iha =>
    simp only [nameless, frees, freeVars, List.mem_append, ihf, iha]
    tauto
  | unit | bool => simp [nameless, frees, freeVars]

/-- A term is closed exactly when its nameless form is. -/
theorem freeVars_eq_nil_iff {t : Term} : t.freeVars = [] ↔ (t.nameless []).frees = [] := by
  simp only [List.eq_nil_iff_forall_not_mem, mem_frees_nameless, List.not_mem_nil, not_false_eq_true, and_true]

/-- A term for the outermost bound variable is a term for the name of its binder. -/
theorem inst_nameless (t : Term) (ρ : List String) (x : String) (u : Nameless) :
    (t.nameless (ρ ++ [x])).inst [u] ρ.length = (t.nameless ρ).put x u := by
  induction t generalizing ρ with
  | var y =>
    rw [nameless, nameless, resolve, resolve, idxOf?_append]
    cases h : ρ.idxOf? y with
    | some i =>
      have hi : i < ρ.length := (List.idxOf?_eq_some_iff.mp h).1
      simp [Nameless.inst, put, hi]
    | none =>
      by_cases hy : y = x
      · simp [Nameless.inst, put, hy]
      · simp [Nameless.inst, put, hy, Ne.symm hy]
  | abs y ty body ih => exact congrArg (Nameless.abs ty) (ih (y :: ρ))
  | cond g a b ihg iha ihb => simp only [nameless, Nameless.inst, put, ihg, iha, ihb]
  | app f a ihf iha => simp only [nameless, Nameless.inst, put, ihf, iha]
  | unit | bool => rfl

end Term

end SimplyTyped
