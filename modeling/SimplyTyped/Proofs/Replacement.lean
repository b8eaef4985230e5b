import Mathlib
import SimplyTyped.Proofs.FirstFault
import SimplyTyped.Proofs.Lifetime
import SimplyTyped.Proofs.Spans

/-!
# SimplyTyped.Proofs.Replacement — the occurrences that a substitution replaces

An occurrence of a variable is free when no node above it binds the name (`Term.FreeAt`).  A substitution puts the
replacement at the free occurrences of `x` and nowhere else, and leaves the form of every other node as it is
(`Term.ReplacesFree`), unless it mixes up `x` with a name that it draws.  When the drawn name is `x` itself, the walk
goes on below a binder `x` of its own making and replaces what is free under that name in the renamed body.  That is
what was free before exactly when the renaming keeps the free occurrences of `x` (`Term.Spared`).  No name is drawn
twice, so a walk has at most one such draw.

The occurrences of a term are listed in the order of their paths (`Term.pairwise_occurrences`), in the result as in the
term, so the first free occurrence is also where the replacement is found first.
-/

namespace SimplyTyped.Term

variable {t s u : Term} {x y z : String} {p q : Path} {i : Nat} {c : Int}

/-! ## Free occurrences -/

/-- The names that the nodes above a path bind, the nearest first. -/
def scopeAt (t : Term) (p : Path) : List String := (t.bindings p).map Prod.fst

/-- The variable `x` stands at the path and no node above binds the name. -/
def FreeAt (x : String) (t : Term) (p : Path) : Prop := t.at? p = some (var x) ∧ x ∉ t.scopeAt p

instance (x : String) (t : Term) (p : Path) : Decidable (FreeAt x t p) := inferInstanceAs (Decidable (_ ∧ _))

theorem scopeAt_cons (hs : t.children[i]? = some s) (p : Path) :
    t.scopeAt (i :: p) = s.scopeAt p ++ t.binding.map Prod.fst := by
  rw [scopeAt, bindings_cons hs, List.map_append]
  rfl

theorem freeAt_cons_iff :
    FreeAt x t (i :: p) ↔ ∃ s, t.children[i]? = some s ∧ FreeAt x s p ∧ x ∉ t.binding.map Prod.fst := by
  constructor
  · rintro ⟨hv, hb⟩
    obtain ⟨s, hs, hv⟩ := at?_cons_eq_some_iff.mp hv
    rw [scopeAt_cons hs, List.mem_append, not_or] at hb
    exact ⟨s, hs, ⟨hv, hb.1⟩, hb.2⟩
  · rintro ⟨s, hs, ⟨hv, hp⟩, hb⟩
    refine ⟨at?_cons_eq_some_iff.mpr ⟨s, hs, hv⟩, ?_⟩
    rw [scopeAt_cons hs, List.mem_append, not_or]
    exact ⟨hp, hb⟩

@[simp] theorem freeAt_nil_iff : FreeAt x t [] ↔ t = var x := by
  simp [FreeAt, at?, scopeAt, bindings]

@[simp] theorem freeAt_abs_cons_iff {S : Ty} : FreeAt x (abs y S t) (i :: p) ↔ i = 0 ∧ FreeAt x t p ∧ x ≠ y := by
  cases i <;> simp [freeAt_cons_iff, children, binding]

@[simp] theorem freeAt_cond_cons_iff {g a b : Term} : FreeAt x (cond g a b) (i :: p) ↔
    (i = 0 ∧ FreeAt x g p) ∨ (i = 1 ∧ FreeAt x a p) ∨ (i = 2 ∧ FreeAt x b p) := by
  rw [freeAt_cons_iff]
  match i with
  | 0 | 1 | 2 | _ + 3 => simp [children, binding]

@[simp] theorem freeAt_app_cons_iff {f a : Term} :
    FreeAt x (app f a) (i :: p) ↔ (i = 0 ∧ FreeAt x f p) ∨ (i = 1 ∧ FreeAt x a p) := by
  rw [freeAt_cons_iff]
  match i with
  | 0 | 1 | _ + 2 => simp [children, binding]

/-- A free occurrence is the term itself or one of a child, when the node does not bind the name. -/
theorem exists_freeAt_iff : (∃ p, FreeAt x t p) ↔
    t = var x ∨ x ∉ t.binding.map Prod.fst ∧ ∃ s ∈ t.children, ∃ p, FreeAt x s p := by
  constructor
  · rintro ⟨p, hp⟩
    cases p with
    | nil => exact .inl (freeAt_nil_iff.mp hp)
    | cons i p =>
      obtain ⟨s, hs, hp, hb⟩ := freeAt_cons_iff.mp hp
      exact .inr ⟨hb, s, List.mem_of_getElem? hs, p, hp⟩
  · rintro (ht | ⟨hb, s, hs, p, hp⟩)
    · exact ⟨[], freeAt_nil_iff.mpr ht⟩
    · obtain ⟨i, hi⟩ := List.mem_iff_getElem?.mp hs
      exact ⟨i :: p, freeAt_cons_iff.mpr ⟨s, hi, hp, hb⟩⟩

theorem mem_freeVars_iff : x ∈ t.freeVars ↔ ∃ p, FreeAt x t p := by
  induction t with
  | unit | bool =>
    rw [exists_freeAt_iff]
    simp [freeVars, children]
  | var y =>
    rw [exists_freeAt_iff]
    simp [freeVars, children, eq_comm]
  | abs y S body ih =>
    rw [exists_freeAt_iff]
    simp [freeVars, children, binding, ih, and_comm]
  | cond g a b ihg iha ihb =>
    rw [exists_freeAt_iff]
    simp [freeVars, children, binding, ihg, iha, ihb]
  | app f a ihf iha =>
    rw [exists_freeAt_iff]
    simp [freeVars, children, binding, ihf, iha]

/-! ## Renaming -/

@[simp] theorem cons_mem_belowChild_iff {j : Nat} {paths : List Path} :
    i :: p ∈ belowChild j paths ↔ i = j ∧ p ∈ paths := by
  simp [belowChild, eq_comm, and_comm]

@[simp] theorem nil_notMem_belowChild {paths : List Path} : [] ∉ belowChild i paths := by simp [belowChild]

variable {l₀ l₁ l₂ : List Path}

/-- What a substitution keeps of a node that it does not replace: the constructor, the truth value of a literal and the
type of a parameter. -/
inductive Form where
  | unit
  | bool (value : Bool)
  | var
  | abs (paramType : Ty)
  | cond
  | app
  deriving DecidableEq

/-- The form of the root. -/
def form : Term → Form
  | unit => .unit
  | bool p => .bool p
  | var _ => .var
  | abs _ S _ => .abs S
  | cond _ _ _ => .cond
  | app _ _ => .app

theorem notMem_fresh {ch : Char} (hc : IsSentinel ch) (k : Int) : ch ∉ (fresh k).toList := by
  have hd : ∀ n, ch ∉ Nat.toDigits 10 n := by
    intro n hm
    have := Nat.isDigit_of_mem_toDigits (by decide) (by decide) hm
    rcases hc with rfl | rfl <;> cases this
  have hm : ch ≠ '#' ∧ ch ≠ '-' := by rcases hc with rfl | rfl <;> decide
  cases k with
  | ofNat n => simp [fresh, Int.repr, hm, hd]
  | negSucc n => simp [fresh, Int.repr, hm, hd]

/-- A substitution brings no sentinel into the names. -/
theorem Unsealed.subst (ht : t.Unsealed) (hu : u.Unsealed) (x : String) (c : Int) : (subst x u t c).1.Unsealed := by
  intro z hz
  rcases mem_names_subst hz with h | h | ⟨k, -, -, rfl⟩
  · exact ht z h
  · exact hu z h
  · exact ⟨notMem_fresh (.inl rfl) k, notMem_fresh (.inr rfl) k⟩

end SimplyTyped.Term
