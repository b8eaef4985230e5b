import SimplyTyped.Proofs.Substitution

/-!
# SimplyTyped.Proofs.Composition — one substitution after another, each with a supply of its own

Every call of `substitute` starts its supply at `#0`, also on a term in which an earlier call has put `#0`, `#1`, ….
So the second of two calls can draw a name that is in use, and then it may capture a bound variable
(`substitute_captures`).  Exactly when each of its draws is clear, the two calls are the two substitutions of the
reference (`nameless_substitute_substitute_iff`).

A draw that is not clear is never made good later.  The name drawn is not drawn again and is not free in the
replacement, so the rest of the walk leaves its occurrences and its binders alone (`reads_subst`): what the result
says about them is what the term said right after the renaming.
-/

namespace SimplyTyped.Term

variable {x y h last : String} {t u : Term} {c : Int} {ρ σ : List String}

/-- A nameless term has, where `t` has an occurrence of `h`, the variable that the binders of `t` and the scope give
it. -/
def Reads (h : String) : Term → List String → Nameless → Prop
  | unit, _, _ | bool _, _, _ => True
  | var z, ρ, n => z = h → n = resolve ρ h
  | abs z _ body, ρ, n => ∃ ty m, n = .abs ty m ∧ body.Reads h (z :: ρ) m
  | cond g a b, ρ, n => ∃ g' a' b', n = .cond g' a' b' ∧ g.Reads h ρ g' ∧ a.Reads h ρ a' ∧ b.Reads h ρ b'
  | app f a, ρ, n => ∃ f' a', n = .app f' a' ∧ f.Reads h ρ f' ∧ a.Reads h ρ a'

theorem reads_nameless (hρ : ρ.idxOf? h = σ.idxOf? h) : t.Reads h ρ (t.nameless σ) := by
  induction t generalizing ρ σ with
  | var z =>
    rintro rfl
    rw [nameless, resolve, resolve, hρ]
  | abs z ty body ih => exact ⟨ty, _, rfl, ih (idxOf?_cons_congr z hρ)⟩
  | cond g a b ihg iha ihb => exact ⟨_, _, _, rfl, ihg hρ, iha hρ, ihb hρ⟩
  | app f a ihf iha => exact ⟨_, _, rfl, ihf hρ, iha hρ⟩
  | unit | bool => trivial

/-- A renaming between other names leaves the occurrences and the binders of `h` where they are. -/
theorem reads_of_rename {k : String} {n : Nameless} (hy : y ≠ h) (hk : k ≠ h) (hρ : ρ.idxOf? h = σ.idxOf? h)
    (hr : (t.rename y k).Reads h ρ n) : t.Reads h σ n := by
  induction t generalizing ρ σ n with
  | var z =>
    rintro rfl
    rw [resolve, ← hρ]
    exact hr (if_neg hy.symm)
  | abs z ty body ih =>
    obtain ⟨ty', m, rfl, hm⟩ := hr
    refine ⟨ty', m, rfl, ih ?_ hm⟩
    by_cases hz : z = y
    · rw [swapName, if_pos hz, hz, idxOf?_cons_of_ne hk, idxOf?_cons_of_ne hy, hρ]
    · rw [swapName, if_neg hz]
      exact idxOf?_cons_congr z hρ
  | cond g a b ihg iha ihb =>
    obtain ⟨g', a', b', rfl, hg, ha, hb⟩ := hr
    exact ⟨g', a', b', rfl, ihg hρ hg, iha hρ ha, ihb hρ hb⟩
  | app f a ihf iha =>
    obtain ⟨f', a', rfl, hf, ha⟩ := hr
    exact ⟨f', a', rfl, ihf hρ hf, iha hρ ha⟩
  | unit | bool => trivial

/-- A substitution leaves the occurrences and the binders of `h` where they are, when `h` is not replaced, not free
in the replacement and not drawn. -/
theorem reads_subst (hx : h ≠ x) (hu : h ∉ u.freeVars) (hk : ∀ k, c ≤ k → fresh k ≠ h)
    (hρ : ρ.idxOf? h = σ.idxOf? h) : t.Reads h ρ ((subst x u t c).1.nameless σ) := by
  fun_induction subst x u t c generalizing ρ σ
  case case1 | case2 => trivial
  case case3 c z =>
    rintro rfl
    rw [if_neg hx, nameless, resolve, resolve, hρ]
  case case4 c ty body => exact reads_nameless hρ
  case case5 c y ty body hy hyu r ih =>
    have hyh : y ≠ h := fun e => hu (e ▸ hyu)
    refine ⟨ty, _, rfl, reads_of_rename hyh (hk c le_rfl) rfl (ih (fun k hck => hk k (by omega)) ?_)⟩
    rw [idxOf?_cons_of_ne hyh, idxOf?_cons_of_ne (hk c le_rfl), hρ]
  case case6 c y ty body hy hyu r ih => exact ⟨ty, _, rfl, ih hk (idxOf?_cons_congr y hρ)⟩
  case case7 c g a b rg ra rb ihg iha _ ihb =>
    have h1 : c ≤ rg.2 := cursor_le_subst x u g c
    have h2 : rg.2 ≤ ra.2 := cursor_le_subst x u a rg.2
    exact ⟨_, _, _, rfl, ihg hk hρ, iha (fun k hck => hk k (h1.trans hck)) hρ,
      ihb (fun k hck => hk k ((h1.trans h2).trans hck)) hρ⟩
  case case8 c f a rf ra ihf iha =>
    have h1 : c ≤ rf.2 := cursor_le_subst x u f c
    exact ⟨_, _, rfl, ihf hk hρ, iha (fun k hck => hk k (h1.trans hck)) hρ⟩

/-- A result that has the renamed binder's variables where the term had them tells that the names were not mixed
up. -/
theorem unmixed_of_reads {n : Nameless} (ha : Aligned y h last ρ σ) (hy : y ≠ x) (hh : h ≠ x)
    (hr : (t.rename y h).Reads h σ ((t.nameless ρ).put x n)) : t.Unmixed y h last := by
  induction t generalizing last ρ σ with
  | var z =>
    intro hz
    have hzx : z ≠ x := by
      rintro rfl
      exact hz.elim hy.symm hh.symm
    have hput : (resolve ρ z).put x n = resolve ρ z := by
      rw [resolve]
      cases ρ.idxOf? z with
      | none => exact if_neg hzx
      | some i => rfl
    exact ha.resolve_eq_iff.mp (hput.symm.trans (hr (swapName_of_or hz))).symm
  | abs z ty body ih =>
    obtain ⟨ty', m, e, hm⟩ := hr
    obtain ⟨rfl, rfl⟩ := Nameless.abs.inj e
    exact ih (ha.cons z) hm
  | cond g a b ihg iha ihb =>
    obtain ⟨g', a', b', e, hg, ha', hb⟩ := hr
    obtain ⟨rfl, rfl, rfl⟩ := Nameless.cond.inj e
    exact ⟨ihg ha hg, iha ha ha', ihb ha hb⟩
  | app f a ihf iha =>
    obtain ⟨f', a', e, hf, ha'⟩ := hr
    obtain ⟨rfl, rfl⟩ := Nameless.app.inj e
    exact ⟨ihf ha hf, iha ha ha'⟩
  | unit | bool => trivial

/-- A right result tells that each draw was clear. -/
theorem drawsClear_of_nameless_subst (hs : SupplyApart x u c)
    (he : (subst x u t c).1.nameless ρ = (t.nameless ρ).put x (u.nameless [])) : DrawsClear x u t c := by
  fun_induction subst x u t c generalizing ρ
  case case1 | case2 | case3 => rw [DrawsClear]; trivial
  case case4 => simp [DrawsClear]
  case case5 c y ty body hy hyu r ih =>
    have he' : r.1.nameless (fresh c :: ρ) = (body.nameless (y :: ρ)).put x (u.nameless []) :=
      (Nameless.abs.inj he).2
    have hk := fun z hz => hs z hz c le_rfl
    have hr : (body.rename y (fresh c)).Reads (fresh c) (fresh c :: ρ) (r.1.nameless (fresh c :: ρ)) :=
      reads_subst (hk y hyu).1 (fun hz => (hk _ hz).2 rfl)
        (fun k hck e => by have := fresh_injective e; omega) rfl
    have hm : body.Unmixed y (fresh c) y := by
      rw [he'] at hr
      exact unmixed_of_reads (Aligned.start y (fresh c) ρ) hy (hk y hyu).1 hr
    rw [DrawsClear, if_neg hy, if_pos hyu]
    refine ⟨hm, ih (ρ := fresh c :: ρ) (hs.mono (by omega)) ?_⟩
    rw [(nameless_rename_iff (Aligned.start y (fresh c) ρ)).mpr hm]
    exact he'
  case case6 c y ty body hy hyu r ih =>
    rw [DrawsClear, if_neg hy, if_neg hyu]
    exact ih (ρ := y :: ρ) hs (Nameless.abs.inj he).2
  case case7 c g a b rg ra rb ihg iha _ ihb =>
    have h1 : c ≤ rg.2 := cursor_le_subst x u g c
    have h2 : rg.2 ≤ ra.2 := cursor_le_subst x u a rg.2
    obtain ⟨eg, ea, eb⟩ := Nameless.cond.inj he
    rw [DrawsClear]
    exact ⟨ihg hs eg, iha (hs.mono h1) ea, ihb (hs.mono (h1.trans h2)) eb⟩
  case case8 c f a rf ra ihf iha =>
    have h1 : c ≤ rf.2 := cursor_le_subst x u f c
    obtain ⟨ef, ea⟩ := Nameless.app.inj he
    rw [DrawsClear]
    exact ⟨ihf hs ef, iha (hs.mono h1) ea⟩

/-! ## Two calls -/

variable {v : Term} {w : String}

/-- **The second of two calls is right exactly when each of its draws is clear.** -/
theorem nameless_substitute_substitute_iff (hx : ∀ k, 0 ≤ k → fresh k ≠ x) (hw : ∀ k, 0 ≤ k → fresh k ≠ w)
    (ht : t.FreshFrom 0) (hu : u.FreshFrom 0) (hv : v.FreshFrom 0) :
    (substitute w v (substitute x u t)).nameless [] =
        ((t.nameless []).put x (u.nameless [])).put w (v.nameless []) ↔
      DrawsClear w v (substitute x u t) 0 := by
  have hs : SupplyApart w v 0 := supplyApart_of_freshFrom hw hv
  have h1 : (substitute x u t).nameless [] = (t.nameless []).put x (u.nameless []) :=
    nameless_subst (supplyApart_of_freshFrom hx hu) (drawsClear_of_freshFrom ht x u) List.not_mem_nil
      fun _ _ => List.not_mem_nil
  rw [← h1]
  exact ⟨drawsClear_of_nameless_subst hs, fun hd =>
    nameless_subst hs hd List.not_mem_nil fun _ _ => List.not_mem_nil⟩

/-- Two calls that draw the same name, for binders one inside the other. -/
theorem substitute_substitute_below_binders :
    let t := abs "a" .bool (abs "b" .bool (app (var "x") (app (var "w") (var "b"))))
    (∀ k, (0 : Int) ≤ k → fresh k ≠ "x") ∧ (∀ k, (0 : Int) ≤ k → fresh k ≠ "w") ∧
      t.FreshFrom 0 ∧ (var "a").FreshFrom 0 ∧ (var "b").FreshFrom 0 ∧
      ((substitute "w" (var "b") (substitute "x" (var "a") t)).nameless [] =
          ((t.nameless []).put "x" (.free "a")).put "w" (.free "b") ↔
        DrawsClear "w" (var "b") (substitute "x" (var "a") t) 0) := by
  have hx : ∀ k, (0 : Int) ≤ k → fresh k ≠ "x" := fun k _ => fresh_ne_of_head? (by decide) k
  have hw : ∀ k, (0 : Int) ≤ k → fresh k ≠ "w" := fun k _ => fresh_ne_of_head? (by decide) k
  have ht : FreshFrom (abs "a" .bool (abs "b" .bool (app (var "x") (app (var "w") (var "b"))))) 0 :=
    freshFrom_of_head? (by decide) 0
  have hu : (var "a").FreshFrom 0 := freshFrom_of_head? (by decide) 0
  have hv : (var "b").FreshFrom 0 := freshFrom_of_head? (by decide) 0
  exact ⟨hx, hw, ht, hu, hv, nameless_substitute_substitute_iff hx hw ht hu hv⟩

/-- **Two calls can capture.**  The first makes `λa. λb. a` into `λ#0. λb. #0`, to keep `a` free, and the second makes
that into `λ#0. λ#0. #0`, to keep `b` free. -/
theorem substitute_captures :
    ¬ ∀ (t u v : Term) (x w : String), (∀ k, 0 ≤ k → fresh k ≠ x) → (∀ k, 0 ≤ k → fresh k ≠ w) →
      t.FreshFrom 0 → u.FreshFrom 0 → v.FreshFrom 0 →
      (substitute w v (substitute x u t)).nameless [] =
        ((t.nameless []).put x (u.nameless [])).put w (v.nameless []) := by
  intro h
  have hc := h (abs "a" .bool (abs "b" .bool (var "a"))) (var "a") (var "b") "x" "w"
    (fun k _ => fresh_ne_of_head? (by decide) k) (fun k _ => fresh_ne_of_head? (by decide) k)
    (freshFrom_of_head? (by decide) 0) (freshFrom_of_head? (by decide) 0) (freshFrom_of_head? (by decide) 0)
  have h1 : substitute "x" (var "a") (abs "a" .bool (abs "b" .bool (var "a"))) =
      abs "#0" .bool (abs "b" .bool (var "#0")) := by decide +kernel
  have h2 : substitute "w" (var "b") (abs "#0" .bool (abs "b" .bool (var "#0"))) =
      abs "#0" .bool (abs "#0" .bool (var "#0")) := by decide +kernel
  rw [h1, h2] at hc
  revert hc
  decide

end SimplyTyped.Term
