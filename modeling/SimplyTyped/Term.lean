import SimplyTyped.Ty

/-!
# SimplyTyped.Term — terms with named binders

Terms compare structurally, names included.  A path lists child indexes from the root; `Term.at?` follows one and
`Term.occurrences` lists all of them, parents before children and left before right.
-/

namespace SimplyTyped

/-- A term of the simply typed lambda calculus.  `abs` binds `param` in `body`. -/
inductive Term where
  | unit
  | bool (value : Bool)
  | var (name : String)
  | abs (param : String) (paramType : Ty) (body : Term)
  | cond (guard thenBranch elseBranch : Term)
  | app (function argument : Term)
  deriving DecidableEq, Inhabited

/-- Child indexes from the root of a term. -/
abbrev Path := List Nat

namespace Term

/-- Literals and abstractions are values. -/
def isValue : Term → Bool
  | unit | bool _ | abs _ _ _ => true
  | var _ | cond _ _ _ | app _ _ => false

/-- The truth value of a literal. -/
def truth? : Term → Option Bool
  | bool b => some b
  | _ => none

/-- The parameter and the body of an abstraction. -/
def lambda? : Term → Option (String × Term)
  | abs x _ body => some (x, body)
  | _ => none

/-- The direct subterms, left to right. -/
def children : Term → List Term
  | abs _ _ body => [body]
  | cond guard thenBranch elseBranch => [guard, thenBranch, elseBranch]
  | app function argument => [function, argument]
  | _ => []

/-- The number of nodes. -/
def size : Term → Nat
  | abs _ _ body => body.size + 1
  | cond guard thenBranch elseBranch => guard.size + thenBranch.size + elseBranch.size + 1
  | app function argument => function.size + argument.size + 1
  | _ => 1

/-- The subterm at a path. -/
def at? : Term → Path → Option Term
  | t, [] => some t
  | t, i :: p => (t.children[i]?).bind (·.at? p)

/-- The occurrences in `t`, reached through child `i` of a larger term. -/
def underChild (i : Nat) (occurrences : List (Path × Term)) : List (Path × Term) :=
  occurrences.map fun (p, t) => (i :: p, t)

/-- Every path of a term with the subterm there, in preorder. -/
def occurrences : Term → List (Path × Term)
  | abs x ty body => ([], abs x ty body) :: underChild 0 body.occurrences
  | cond g a b =>
    ([], cond g a b) :: (underChild 0 g.occurrences ++ underChild 1 a.occurrences ++ underChild 2 b.occurrences)
  | app f a => ([], app f a) :: (underChild 0 f.occurrences ++ underChild 1 a.occurrences)
  | t => [([], t)]

/-- The names that occur unbound, in order of occurrence and with repetitions. -/
def freeVars : Term → List String
  | unit | bool _ => []
  | var x => [x]
  | abs x _ body => body.freeVars.filter (· ≠ x)
  | cond g a b => g.freeVars ++ a.freeVars ++ b.freeVars
  | app f a => f.freeVars ++ a.freeVars

/-- The free names, each once, in the order of their code points. -/
def freeNames (t : Term) : List String :=
  t.freeVars.eraseDups.mergeSort (fun x y => decide (x ≤ y))

/-- `y`, or `new` in its place when `y` is `old`. -/
def swapName (old new y : String) : String := if y = old then new else y

/-- Every occurrence of the name `old` becomes `new`, binders included and without regard to scope. -/
def rename (old new : String) : Term → Term
  | unit => unit
  | bool b => bool b
  | var y => var (swapName old new y)
  | abs y ty body => abs (swapName old new y) ty (body.rename old new)
  | cond g a b => cond (g.rename old new) (a.rename old new) (b.rename old new)
  | app f a => app (f.rename old new) (a.rename old new)

@[simp] theorem size_rename (old new : String) (t : Term) : (t.rename old new).size = t.size := by
  induction t <;> simp_all [rename, size]

/-- What holds of a term when it holds of its direct subterms holds of every term. -/
theorem induction_children {P : Term → Prop} (step : ∀ t, (∀ s ∈ t.children, P s) → P t) (t : Term) : P t := by
  induction t with
  | unit | bool | var => exact step _ fun s hs => absurd hs List.not_mem_nil
  | abs x S body ih => exact step _ fun s hs => List.mem_singleton.mp hs ▸ ih
  | cond g a b ihg iha ihb => exact step _ (by simp [children, ihg, iha, ihb])
  | app f a ihf iha => exact step _ (by simp [children, ihf, iha])

theorem at?_cons_eq_some_iff {t q : Term} {i : Nat} {p : Path} :
    t.at? (i :: p) = some q ↔ ∃ s, t.children[i]? = some s ∧ s.at? p = some q := by
  rw [at?, Option.bind_eq_some_iff]

theorem at?_append (p q : Path) (t : Term) : t.at? (p ++ q) = (t.at? p).bind (·.at? q) := by
  induction p generalizing t with
  | nil => rfl
  | cons i p ih =>
    rw [List.cons_append, at?, at?]
    cases t.children[i]? with
    | none => rfl
    | some c => exact ih c

end Term

end SimplyTyped
