import SimplyTyped.Proofs.Renaming

/-!
# SimplyTyped.Proofs.Substitution — substitution with renaming against the nameless reference

`Term.subst` is right when every binder that it renames can take the drawn name without a mix-up (`DrawsClear`) and
the supply keeps apart from the name that is replaced and from the free names of the replacement (`SupplyApart`):
then the result is the nameless term with the replacement put in (`nameless_subst`).  Both hold from any cursor from
which on the names of the supply occur nowhere, and both hold from every cursor for a closed replacement, which asks
for no names at all.
-/

namespace SimplyTyped.Term

variable {x y : String} {t u : Term} {c : Int} {ρ : List String}

/-- Each binder that `subst` renames can take the name that it draws. -/
def DrawsClear (x : String) (u : Term) (t : Term) (cursor : Int) : Prop :=
  match t with
  | unit | bool _ | var _ => True
  | abs y _ body =>
    if y = x then True
    else if y ∈ u.freeVars then
      body.Unmixed y (fresh cursor) y ∧ DrawsClear x u (body.rename y (fresh cursor)) (cursor + 1)
    else DrawsClear x u body cursor
  | cond g a b =>
    DrawsClear x u g cursor ∧ DrawsClear x u a (subst x u g cursor).2 ∧
      DrawsClear x u b (subst x u a (subst x u g cursor).2).2
  | app f a => DrawsClear x u f cursor ∧ DrawsClear x u a (subst x u f cursor).2
termination_by t.size
decreasing_by all_goals simp [size]; try omega

/-- The supply from the cursor on hands out neither `x` nor a free name of `u`; without free names in `u` it is never
asked. -/
def SupplyApart (x : String) (u : Term) (cursor : Int) : Prop :=
  ∀ y ∈ u.freeVars, ∀ k, cursor ≤ k → fresh k ≠ x ∧ fresh k ≠ y

theorem SupplyApart.mono {d : Int} (h : SupplyApart x u c) (hcd : c ≤ d) : SupplyApart x u d :=
  fun y hy k hk => h y hy k (hcd.trans hk)

theorem supplyApart_of_closed (hu : u.freeVars = []) (x : String) (c : Int) : SupplyApart x u c := by
  intro y hy
  simp [hu] at hy

theorem supplyApart_of_freshFrom (hx : ∀ k, c ≤ k → fresh k ≠ x) (hu : u.FreshFrom c) : SupplyApart x u c :=
  fun _ hy k hk => ⟨hx k hk, fun e => hu k hk (e ▸ mem_names_of_mem_freeVars hy)⟩

theorem drawsClear_of_closed (hu : u.freeVars = []) (x : String) (t : Term) (c : Int) : DrawsClear x u t c := by
  fun_induction subst x u t c with
  | case1 | case2 | case3 => rw [DrawsClear]; trivial
  | case4 => simp [DrawsClear]
  | case5 c y ty body hy hyu => simp [hu] at hyu
  | case6 c y ty body hy hyu r ih =>
    rw [DrawsClear, if_neg hy, if_neg hyu]
    exact ih
  | case7 c g a b rg ra rb ihg iha _ ihb =>
    rw [DrawsClear]
    exact ⟨ihg, iha, ihb⟩
  | case8 c f a rf ra ihf iha =>
    rw [DrawsClear]
    exact ⟨ihf, iha⟩

theorem FreshFrom.rename (h : t.FreshFrom c) (y : String) : (t.rename y (fresh c)).FreshFrom (c + 1) := by
  intro k hk hmem
  rcases mem_names_rename hmem with e | hmem
  · have := fresh_injective e
    omega
  · exact h k (by omega) hmem

theorem drawsClear_of_freshFrom (ht : t.FreshFrom c) (x : String) (u : Term) : DrawsClear x u t c := by
  fun_induction subst x u t c with
  | case1 | case2 | case3 => rw [DrawsClear]; trivial
  | case4 => simp [DrawsClear]
  | case5 c y ty body hy hyu r ih =>
    have hb := (freshFrom_abs_iff.mp ht).2
    rw [DrawsClear, if_neg hy, if_pos hyu]
    exact ⟨unmixed_of_notMem (hb c le_rfl), ih (hb.rename y)⟩
  | case6 c y ty body hy hyu r ih =>
    rw [DrawsClear, if_neg hy, if_neg hyu]
    exact ih (freshFrom_abs_iff.mp ht).2
  | case7 c g a b rg ra rb ihg iha _ ihb =>
    have h1 : c ≤ rg.2 := cursor_le_subst x u g c
    have h2 : rg.2 ≤ ra.2 := cursor_le_subst x u a rg.2
    obtain ⟨hg, ha, hb⟩ := freshFrom_cond_iff.mp ht
    rw [DrawsClear]
    exact ⟨ihg hg, iha (ha.mono h1), ihb (hb.mono (h1.trans h2))⟩
  | case8 c f a rf ra ihf iha =>
    have h1 : c ≤ rf.2 := cursor_le_subst x u f c
    obtain ⟨hf, ha⟩ := freshFrom_app_iff.mp ht
    rw [DrawsClear]
    exact ⟨ihf hf, iha (ha.mono h1)⟩

/-- **Substitution is right when its draws are clear.** -/
theorem nameless_subst (hs : SupplyApart x u c) (hd : DrawsClear x u t c) (hx : x ∉ ρ)
    (hu : ∀ y ∈ u.freeVars, y ∉ ρ) : (subst x u t c).1.nameless ρ = (t.nameless ρ).put x (u.nameless []) := by
  fun_induction subst x u t c generalizing ρ
  case case1 | case2 => rfl
  case case3 c y =>
    by_cases hy : y = x
    · subst hy
      rw [if_pos rfl, nameless, resolve_of_notMem hx, Nameless.put, if_pos rfl, nameless_of_disjoint hu]
    · rw [if_neg hy, nameless, resolve]
      cases ρ.idxOf? y with
      | none => exact (if_neg hy).symm
      | some i => rfl
  case case4 c ty body =>
    refine (Nameless.put_eq_self fun h => ?_).symm
    have := mem_frees_nameless.mp h
    simp [freeVars] at this
  case case5 c y ty body hy hyu r ih =>
    rw [DrawsClear, if_neg hy, if_pos hyu] at hd
    -- the renamed body is read below the drawn name, which is neither `x` nor free in `u`
    have hk := fun z hz => hs z hz c le_rfl
    rw [nameless, ih (hs.mono (by omega)) hd.2 (ρ := fresh c :: ρ),
      (nameless_rename_iff (Aligned.start y _ ρ)).mpr hd.1]
    · rfl
    · exact fun h => (List.mem_cons.mp h).elim (fun e => (hk y hyu).1 e.symm) hx
    · exact fun z hz h => (List.mem_cons.mp h).elim (fun e => (hk z hz).2 e.symm) (hu z hz)
  case case6 c y ty body hy hyu r ih =>
    rw [DrawsClear, if_neg hy, if_neg hyu] at hd
    rw [nameless, ih hs hd (ρ := y :: ρ)]
    · rfl
    · exact fun h => (List.mem_cons.mp h).elim (fun e => hy e.symm) hx
    · exact fun z hz h => (List.mem_cons.mp h).elim (fun e => hyu (e ▸ hz)) (hu z hz)
  case case7 c g a b rg ra rb ihg iha _ ihb =>
    have h1 : c ≤ rg.2 := cursor_le_subst x u g c
    have h2 : rg.2 ≤ ra.2 := cursor_le_subst x u a rg.2
    rw [DrawsClear] at hd
    rw [nameless, ihg hs hd.1 hx hu, iha (hs.mono h1) hd.2.1 hx hu, ihb (hs.mono (h1.trans h2)) hd.2.2 hx hu]
    rfl
  case case8 c f a rf ra ihf iha =>
    have h1 : c ≤ rf.2 := cursor_le_subst x u f c
    rw [DrawsClear] at hd
    rw [nameless, ihf hs hd.1 hx hu, iha (hs.mono h1) hd.2 hx hu]
    rfl

/-- **Substitution avoids capture from every cursor behind the names in use.**  The reference keeps the types of
parameters, so equality with it also says that these stay as they are. -/
theorem subst_from_fresh_cursor (x : String) (u t : Term) (c : Int) (hx : ∀ k, c ≤ k → fresh k ≠ x)
    (ht : t.FreshFrom c) (hu : u.FreshFrom c) :
    c ≤ (subst x u t c).2 ∧
      (subst x u t c).1.nameless [] = (t.nameless []).put x (u.nameless []) ∧
      (subst x u t c).1.FreshFrom (subst x u t c).2 := by
  refine ⟨cursor_le_subst x u t c, ?_, ht.subst hu x⟩
  exact nameless_subst (supplyApart_of_freshFrom hx hu) (drawsClear_of_freshFrom ht x u) List.not_mem_nil
    fun _ _ => List.not_mem_nil

/-- A binder `y` that hides another one stands in the way of a free `y`. -/
theorem subst_below_shadowing_binders :
    let t := abs "y" .bool (abs "y" .unit (app (var "x") (var "y")))
    (∀ k, (0 : Int) ≤ k → fresh k ≠ "x") ∧ t.FreshFrom 0 ∧ (var "y").FreshFrom 0 ∧
      0 ≤ (subst "x" (var "y") t 0).2 ∧
      (subst "x" (var "y") t 0).1.nameless [] = .abs .bool (.abs .unit (.app (.free "y") (.bound 0))) ∧
      (subst "x" (var "y") t 0).1.FreshFrom (subst "x" (var "y") t 0).2 := by
  have hx : ∀ k, (0 : Int) ≤ k → fresh k ≠ "x" := fun k _ => fresh_ne_of_head? (by decide) k
  have ht : FreshFrom (abs "y" .bool (abs "y" .unit (app (var "x") (var "y")))) 0 :=
    freshFrom_of_head? (by decide) 0
  have hu : (var "y").FreshFrom 0 := freshFrom_of_head? (by decide) 0
  exact ⟨hx, ht, hu, subst_from_fresh_cursor "x" (var "y") _ 0 hx ht hu⟩

end SimplyTyped.Term
