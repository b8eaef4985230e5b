import SimplyTyped.Names
import SimplyTyped.Term

/-!
# SimplyTyped.Term.Substitution — substitution with renaming of binders that would capture

`Term.subst x u t c` puts `u` for the free occurrences of `x` in `t`.  A binder whose name is free in `u` takes the
next name of the supply first; the cursor `c` runs through the whole term from left to right and comes back with the
result.  `Term.sites` follows the same walk and tells at which paths of the result `u` was put.
-/

namespace SimplyTyped.Term

/-- `t` with `u` for the free occurrences of `x`, and the cursor after the names drawn. -/
def subst (x : String) (u : Term) (t : Term) (cursor : Int) : Term × Int :=
  match t with
  | unit => (unit, cursor)
  | bool b => (bool b, cursor)
  | var y => (if y = x then u else var y, cursor)
  | abs y ty body =>
    if y = x then (abs y ty body, cursor)
    else if y ∈ u.freeVars then
      let r := subst x u (body.rename y (fresh cursor)) (cursor + 1)
      (abs (fresh cursor) ty r.1, r.2)
    else
      let r := subst x u body cursor
      (abs y ty r.1, r.2)
  | cond g a b =>
    let rg := subst x u g cursor
    let ra := subst x u a rg.2
    let rb := subst x u b ra.2
    (cond rg.1 ra.1 rb.1, rb.2)
  | app f a =>
    let rf := subst x u f cursor
    let ra := subst x u a rf.2
    (app rf.1 ra.1, ra.2)
termination_by t.size
decreasing_by all_goals simp [size]; try omega

/-- Substitution with a supply of its own, starting at `#0`. -/
def substitute (x : String) (u t : Term) : Term := (subst x u t 0).1

/-- Paths of a child, as paths of its parent. -/
def belowChild (i : Nat) (paths : List Path) : List Path := paths.map (i :: ·)

/-- The paths at which `subst` puts `u`, in preorder, and the cursor after the names drawn. -/
def sites (x : String) (u : Term) (t : Term) (cursor : Int) : List Path × Int :=
  match t with
  | unit => ([], cursor)
  | bool _ => ([], cursor)
  | var y => (if y = x then [[]] else [], cursor)
  | abs y _ body =>
    if y = x then ([], cursor)
    else if y ∈ u.freeVars then
      let r := sites x u (body.rename y (fresh cursor)) (cursor + 1)
      (belowChild 0 r.1, r.2)
    else
      let r := sites x u body cursor
      (belowChild 0 r.1, r.2)
  | cond g a b =>
    let rg := sites x u g cursor
    let ra := sites x u a rg.2
    let rb := sites x u b ra.2
    (belowChild 0 rg.1 ++ belowChild 1 ra.1 ++ belowChild 2 rb.1, rb.2)
  | app f a =>
    let rf := sites x u f cursor
    let ra := sites x u a rf.2
    (belowChild 0 rf.1 ++ belowChild 1 ra.1, ra.2)
termination_by t.size
decreasing_by all_goals simp [size]; try omega

/-! ## The two walks -/

/-- The cursor never goes back. -/
theorem cursor_le_subst (x : String) (u t : Term) (c : Int) : c ≤ (subst x u t c).2 := by
  fun_induction subst x u t c with
  | case1 | case2 | case3 | case4 => simp
  | case5 c y ty body hy hu r ih => exact Int.le_trans (by omega) ih
  | case6 c y ty body hy hu r ih => exact ih
  | case7 c g a b rg ra rb ihg iha _ ihb => exact Int.le_trans ihg (Int.le_trans iha ihb)
  | case8 c f a rf ra ihf iha => exact Int.le_trans ihf iha

end SimplyTyped.Term
