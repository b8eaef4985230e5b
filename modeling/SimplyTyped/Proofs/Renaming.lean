import SimplyTyped.Proofs.Freshness
import SimplyTyped.Proofs.Nameless

/-!
# SimplyTyped.Proofs.Renaming — when renaming a binder changes nothing but names

`Term.rename` does not look at scopes: below a binder `y` that becomes `h` it also renames the binders of the name
`y` further inside, and it passes binders of the name `h` without a second look.  It is the renaming of one bound
variable exactly when the two names do not get mixed up (`Unmixed`): every occurrence of `y` or of `h` below the
binder must belong to the nearest binder of either name (`nameless_rename_iff`).  A name that does not occur at all
is never mixed up (`unmixed_of_notMem`), and the renaming of a whole term to such a name is undone by the renaming
back (`rename_to_unused`).
-/

namespace SimplyTyped.Term

variable {t : Term} {y h last : String} {ρ σ : List String}

/-- Every occurrence of `y` or `h` belongs to the nearest binder of either name; `last` is the nearest around the
term. -/
def Unmixed (y h : String) : Term → String → Prop
  | unit, _ | bool _, _ => True
  | var z, last => z = y ∨ z = h → z = last
  | abs z _ body, last => body.Unmixed y h (if z = y ∨ z = h then z else last)
  | cond g a b, last => g.Unmixed y h last ∧ a.Unmixed y h last ∧ b.Unmixed y h last
  | app f a, last => f.Unmixed y h last ∧ a.Unmixed y h last

theorem swapName_of_or {z : String} (hz : z = y ∨ z = h) : swapName y h z = h := by
  rw [swapName]
  split
  · rfl
  · next hy => exact hz.resolve_left hy

theorem unmixed_of_notMem (hh : h ∉ t.names) : t.Unmixed y h y := by
  induction t with
  | var z =>
    intro hz
    exact hz.resolve_right fun e => hh (by simp [names, e])
  | abs z ty body ih =>
    rw [names, List.mem_cons, not_or] at hh
    have hz : (if z = y ∨ z = h then z else y) = y := by
      split
      · next hz => exact hz.resolve_right fun e => hh.1 e.symm
      · rfl
    rw [Unmixed, hz]
    exact ih hh.2
  | cond g a b ihg iha ihb =>
    simp only [names, List.mem_append, not_or] at hh
    exact ⟨ihg hh.1.1, iha hh.1.2, ihb hh.2⟩
  | app f a ihf iha =>
    simp only [names, List.mem_append, not_or] at hh
    exact ⟨ihf hh.1, iha hh.2⟩
  | unit | bool => trivial

/-- Two scopes of the binders around a term before and after `y` became `h`: the nearest binder of either name,
`last` before and `h` after, is in the same place, and so are the binders of all other names. -/
structure Aligned (y h last : String) (ρ σ : List String) : Prop where
  last_mem : last = y ∨ last = h
  nearest : ∃ i, ρ.idxOf? last = some i ∧ σ.idxOf? h = some i
  others : ∀ z, z ≠ y → z ≠ h → ρ.idxOf? z = σ.idxOf? z

theorem Aligned.start (y h : String) (ρ : List String) : Aligned y h y (y :: ρ) (h :: ρ) where
  last_mem := .inl rfl
  nearest := ⟨0, idxOf?_cons_self y ρ, idxOf?_cons_self h ρ⟩
  others z hy hh := by rw [idxOf?_cons_of_ne hy.symm, idxOf?_cons_of_ne hh.symm]

/-- Below one more binder the scopes are aligned again. -/
theorem Aligned.cons (ha : Aligned y h last ρ σ) (z : String) :
    Aligned y h (if z = y ∨ z = h then z else last) (z :: ρ) (swapName y h z :: σ) := by
  by_cases hz : z = y ∨ z = h
  · rw [if_pos hz, swapName_of_or hz]
    refine ⟨hz, ⟨0, idxOf?_cons_self z ρ, idxOf?_cons_self h σ⟩, fun w hy hh => ?_⟩
    have hzw : z ≠ w := by
      rintro rfl
      exact hz.elim hy hh
    rw [idxOf?_cons_of_ne hzw, idxOf?_cons_of_ne hh.symm, ha.others w hy hh]
  · rw [if_neg hz]
    rw [not_or] at hz
    obtain ⟨i, hi, hj⟩ := ha.nearest
    have hl : z ≠ last := by
      rintro rfl
      exact ha.last_mem.elim hz.1 hz.2
    rw [swapName, if_neg hz.1]
    refine ⟨ha.last_mem, ⟨i + 1, ?_, ?_⟩, fun w hy hh => idxOf?_cons_congr z (ha.others w hy hh)⟩
    · rw [idxOf?_cons_of_ne hl, hi, Option.map_some]
    · rw [idxOf?_cons_of_ne hz.2, hj, Option.map_some]

/-- Of the two names, the one whose nearest binder is further out does not resolve to the place of the nearer. -/
theorem Aligned.resolve_eq_iff (ha : Aligned y h last ρ σ) {z : String} :
    resolve σ h = resolve ρ z ↔ z = last := by
  obtain ⟨i, hi, hj⟩ := ha.nearest
  constructor
  · intro he
    rw [resolve, hj, resolve] at he
    cases hk : ρ.idxOf? z with
    | none => simp [hk] at he
    | some k =>
      rw [hk] at he
      obtain rfl : i = k := Nameless.bound.inj he
      obtain ⟨_, hl, -⟩ := List.idxOf?_eq_some_iff.mp hi
      obtain ⟨_, hz', -⟩ := List.idxOf?_eq_some_iff.mp hk
      exact hz'.symm.trans hl
  · rintro rfl
    rw [resolve, resolve, hi, hj]

/-- **Renaming a binder is an alpha step exactly when the names do not get mixed up.** -/
theorem nameless_rename_iff (ha : Aligned y h last ρ σ) :
    (t.rename y h).nameless σ = t.nameless ρ ↔ t.Unmixed y h last := by
  induction t generalizing last ρ σ with
  | var z =>
    rw [rename, nameless, nameless, Unmixed]
    by_cases hz : z = y ∨ z = h
    · rw [swapName_of_or hz, ha.resolve_eq_iff]
      exact ⟨fun e _ => e, fun e => e hz⟩
    · rw [not_or] at hz
      rw [swapName, if_neg hz.1, resolve, resolve, ha.others z hz.1 hz.2]
      exact ⟨fun _ e => absurd e (not_or.mpr hz), fun _ => rfl⟩
  | abs z ty body ih =>
    rw [rename, nameless, nameless, Nameless.abs.injEq, ih (ha.cons z), Unmixed]
    exact and_iff_right rfl
  | cond g a b ihg iha ihb =>
    rw [rename, nameless, nameless, Nameless.cond.injEq, ihg ha, iha ha, ihb ha, Unmixed]
  | app f a ihf iha => rw [rename, nameless, nameless, Nameless.app.injEq, ihf ha, iha ha, Unmixed]
  | unit | bool => exact ⟨fun _ => trivial, fun _ => rfl⟩

/-! ## Names that do not occur -/

variable {z w v : String}

/-- Names other than `z` stay apart when `y` becomes `z`. -/
theorem swapName_inj (hw : w ≠ z) (hv : v ≠ z) : swapName y z w = swapName y z v ↔ w = v := by
  rw [swapName, swapName]
  by_cases hwy : w = y <;> by_cases hvy : v = y
  · simp [hwy, hvy]
  · simp [hwy, hvy, hv.symm, Ne.symm hvy]
  · simp [hwy, hvy, hw]
  · simp [hwy, hvy]

theorem swapName_swapName (hw : w ≠ z) : swapName z y (swapName y z w) = w := by
  rw [swapName, swapName]
  by_cases hwy : w = y
  · simp [hwy]
  · simp [hwy, hw]

theorem rename_rename_of_notMem (hz : z ∉ t.names) : (t.rename y z).rename z y = t := by
  induction t with
  | var w =>
    rw [names, List.mem_singleton] at hz
    rw [rename, rename, swapName_swapName (Ne.symm hz)]
  | abs w S body ih =>
    rw [names, List.mem_cons, not_or] at hz
    rw [rename, rename, swapName_swapName (Ne.symm hz.1), ih hz.2]
  | cond g a b ihg iha ihb =>
    simp only [names, List.mem_append, not_or] at hz
    rw [rename, rename, ihg hz.1.1, iha hz.1.2, ihb hz.2]
  | app f a ihf iha =>
    simp only [names, List.mem_append, not_or] at hz
    rw [rename, rename, ihf hz.1, iha hz.2]
  | unit | bool => rfl

theorem freeVars_rename_of_notMem (hz : z ∉ t.names) :
    (t.rename y z).freeVars = t.freeVars.map (swapName y z) := by
  induction t with
  | var w => rfl
  | abs w S body ih =>
    rw [names, List.mem_cons, not_or] at hz
    rw [rename, freeVars, freeVars, ih hz.2, List.filter_map]
    -- what the binder takes away is the same before and after, since no two names become one
    congr 1
    refine List.filter_congr fun v hv => ?_
    have hvz : v ≠ z := by
      rintro rfl
      exact hz.2 (mem_names_of_mem_freeVars hv)
    simp [swapName_inj hvz (Ne.symm hz.1)]
  | cond g a b ihg iha ihb =>
    simp only [names, List.mem_append, not_or] at hz
    rw [rename, freeVars, freeVars, ihg hz.1.1, iha hz.1.2, ihb hz.2, List.map_append, List.map_append]
  | app f a ihf iha =>
    simp only [names, List.mem_append, not_or] at hz
    rw [rename, freeVars, freeVars, ihf hz.1, iha hz.2, List.map_append]
  | unit | bool => rfl

/-- The nearest binder of a name is where it was. -/
theorem idxOf?_map_swapName (hρ : z ∉ ρ) (hw : w ≠ z) :
    (ρ.map (swapName y z)).idxOf? (swapName y z w) = ρ.idxOf? w := by
  induction ρ with
  | nil => rfl
  | cons v ρ ih =>
    rw [List.mem_cons, not_or] at hρ
    rw [List.map_cons, List.idxOf?_cons, List.idxOf?_cons, ih hρ.2]
    simp [swapName_inj (Ne.symm hρ.1) hw]

/-- Without the names of bound variables, renaming to a name that does not occur is putting that name for the free
variable of the old one. -/
theorem nameless_rename_of_notMem (hρ : z ∉ ρ) (hz : z ∉ t.names) :
    (t.rename y z).nameless (ρ.map (swapName y z)) = (t.nameless ρ).put y (.free z) := by
  induction t generalizing ρ with
  | var w =>
    rw [names, List.mem_singleton] at hz
    rw [rename, nameless, nameless, resolve, resolve, idxOf?_map_swapName hρ (Ne.symm hz)]
    cases ρ.idxOf? w with
    | some i => rfl
    | none => exact apply_ite Nameless.free (w = y) z w
  | abs w S body ih =>
    rw [names, List.mem_cons, not_or] at hz
    have hwρ : z ∉ w :: ρ := by simp [hz.1, hρ]
    exact congrArg (Nameless.abs S) (ih hwρ hz.2)
  | cond g a b ihg iha ihb =>
    simp only [names, List.mem_append, not_or] at hz
    rw [rename, nameless, nameless, Nameless.put, ihg hρ hz.1.1, iha hρ hz.1.2, ihb hρ hz.2]
  | app f a ihf iha =>
    simp only [names, List.mem_append, not_or] at hz
    rw [rename, nameless, nameless, Nameless.put, ihf hρ hz.1, iha hρ hz.2]
  | unit | bool => rfl

/-- **Renaming to a name that does not occur changes names only, and can be undone.**  The renaming back gives the term
again, the free variables are the old ones with `new` for `old`, and every variable points to the binder that it
pointed to: without the names of bound variables the new name stands where the old one was free, and all else is as
it was.  So when `old` is not free the result is alpha-equivalent to the term, however often `old` is bound in it. -/
theorem rename_to_unused (old new : String) (t : Term) (hnew : new ∉ t.names) :
    (t.rename old new).rename new old = t ∧
    (t.rename old new).freeVars = t.freeVars.map (swapName old new) ∧
    (t.rename old new).nameless [] = (t.nameless []).put old (.free new) ∧
    (old ∉ t.freeVars → (t.rename old new).nameless [] = t.nameless []) := by
  have hput : (t.rename old new).nameless [] = (t.nameless []).put old (.free new) :=
    nameless_rename_of_notMem List.not_mem_nil hnew
  refine ⟨rename_rename_of_notMem hnew, freeVars_rename_of_notMem hnew, hput, fun hold => ?_⟩
  exact hput.trans (Nameless.put_eq_self fun h => hold (mem_frees_nameless.mp h).1)

/-- The name `x` is bound three times, once hidden and once not used. -/
theorem rename_to_unused_below_shadowing_binders :
    let t := abs "x" .bool (app (abs "x" .unit (app (var "x") (var "y"))) (app (var "x") (abs "x" .bool (var "y"))))
    "z" ∉ t.names ∧ "x" ∉ t.freeVars ∧
      (t.rename "x" "z").rename "z" "x" = t ∧
      (t.rename "x" "z").freeVars = t.freeVars.map (swapName "x" "z") ∧
      (t.rename "x" "z").nameless [] = t.nameless [] := by
  intro t
  have hnew : "z" ∉ t.names := by decide
  have hold : "x" ∉ t.freeVars := by decide
  obtain ⟨hback, hfree, -, halpha⟩ := rename_to_unused "x" "z" t hnew
  exact ⟨hnew, hold, hback, hfree, halpha hold⟩

end SimplyTyped.Term
