import SimplyTyped.Term

/-!
# SimplyTyped.Typing — the type of a term, or the first fault

`infer` walks a term from left to right under a context and stops at the first fault, which it reports with the path of
the subterm to blame.  A binding hides the earlier ones of its name.
-/

namespace SimplyTyped

section
variable {ε α β : Type} {r : Except ε α} {next : α → Except ε β}

theorem bind_eq_ok_iff {b : β} : (r >>= next) = .ok b ↔ ∃ a, r = .ok a ∧ next a = .ok b := by
  cases r <;> simp [bind, Except.bind]

theorem bind_eq_error_iff {e : ε} : (r >>= next) = .error e ↔ r = .error e ∨ ∃ a, r = .ok a ∧ next a = .error e := by
  cases r <;> simp [bind, Except.bind]

end

/-- Names and what is bound to them, the most recent binding first. -/
abbrev Bindings (α : Type) := List (String × α)

/-- The types of the names in scope. -/
abbrev Context := Bindings Ty

namespace Bindings

variable {α : Type}

/-- The bindings with one more, the most recent one. -/
def push (x : String) (a : α) (Γ : Bindings α) : Bindings α := (x, a) :: Γ

/-- The bindings of a plain list, the most recent one first: the last of the list is pushed first. -/
def ofList (bindings : List (String × α)) : Bindings α :=
  bindings.reverse.foldl (fun Γ binding => push binding.1 binding.2 Γ) []

/-- What the most recent binding of a name binds. -/
def lookup (x : String) : Bindings α → Option α
  | [] => none
  | (y, a) :: Γ => if y = x then some a else Bindings.lookup x Γ

/-- Pushing keeps the order of the list. -/
@[simp] theorem ofList_eq (bindings : List (String × α)) : ofList bindings = bindings := by
  rw [ofList, List.foldl_reverse]
  exact List.foldr_cons_nil

end Bindings

namespace Typing

/-- What is wrong with a term, and the subterms concerned. -/
inductive Fault where
  | unbound (name : String)
  | badGuard (guard : Term)
  | branchMismatch (thenBranch elseBranch : Term)
  | notApplicable (function : Term)
  | argMismatch (function argument : Term)
  deriving DecidableEq

/-- A fault and the path of the subterm to blame. -/
structure Error where
  fault : Fault
  culprit : Path
  deriving DecidableEq

/-- The fault of a child, as one of its parent. -/
def Error.below (i : Nat) (e : Error) : Error := { e with culprit := i :: e.culprit }

/-- The type of a child, or its fault as one of the parent. -/
def inChild (i : Nat) : Except Error Ty → Except Error Ty
  | .ok ty => .ok ty
  | .error e => .error (e.below i)

/-- The type of an application whose parts have types. -/
def applied (f a : Term) (functionType argumentType : Ty) : Except Error Ty :=
  match functionType with
  | .arrow domain codomain =>
    if domain = argumentType then .ok codomain else .error ⟨.argMismatch f a, [1]⟩
  | _ => .error ⟨.notApplicable f, [0]⟩

/-- The type of a term under a context. -/
def infer (Γ : Context) : Term → Except Error Ty
  | .unit => .ok .unit
  | .bool _ => .ok .bool
  | .var x =>
    match Bindings.lookup x Γ with
    | some ty => .ok ty
    | none => .error ⟨.unbound x, []⟩
  | .abs x ty body => do
    let codomain ← inChild 0 (infer (Bindings.push x ty Γ) body)
    return .arrow ty codomain
  | .cond g a b => do
    let guardType ← inChild 0 (infer Γ g)
    if guardType ≠ .bool then throw ⟨.badGuard g, [0]⟩
    let thenType ← inChild 1 (infer Γ a)
    let elseType ← inChild 2 (infer Γ b)
    if thenType ≠ elseType then throw ⟨.branchMismatch a b, []⟩
    return thenType
  | .app f a => do
    let functionType ← inChild 0 (infer Γ f)
    let argumentType ← inChild 1 (infer Γ a)
    applied f a functionType argumentType

end Typing

end SimplyTyped
