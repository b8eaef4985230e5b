import Mathlib
import SimplyTyped.Term.Substitution

/-!
# SimplyTyped.Proofs.Freshness — names that a supply has not handed out yet

`Term.FreshFrom t c` says that no name of the supply from the cursor `c` on occurs in `t`, as a variable or as a
binder.  A substitution keeps this in step with its cursor: what it puts together holds names of the term, names of
the replacement and the names drawn, and the cursor it gives back is behind the names drawn.
-/

namespace SimplyTyped

theorem fresh_injective {i j : Int} (h : fresh i = fresh j) : i = j :=
  Int.repr_injective (String.append_right_inj _ |>.mp h)

/-- The names of the supply begin with the mark; a name without it is none of them. -/
theorem fresh_ne_of_head? {x : String} (h : x.toList.head? ≠ some '#') (k : Int) : fresh k ≠ x := by
  rintro rfl
  simp [fresh] at h

namespace Term

/-- The names that occur, as variables and as binders. -/
@[simp]
def names : Term → List String
  | unit | bool _ => []
  | var x => [x]
  | abs x _ body => x :: body.names
  | cond g a b => g.names ++ a.names ++ b.names
  | app f a => f.names ++ a.names

/-- No name that the supply hands out from the cursor on occurs in the term. -/
def FreshFrom (t : Term) (cursor : Int) : Prop := ∀ k, cursor ≤ k → fresh k ∉ t.names

/-- The name is handed out by a supply on the way from one cursor to another. -/
def Drawn (c d : Int) (x : String) : Prop := ∃ k, c ≤ k ∧ k < d ∧ x = fresh k

variable {t u : Term} {x y z : String} {c : Int}

theorem Drawn.mono {d c' d' : Int} (h : Drawn c d x) (hc : c' ≤ c) (hd : d ≤ d') : Drawn c' d' x := by
  obtain ⟨k, h1, h2, rfl⟩ := h
  exact ⟨k, hc.trans h1, h2.trans_le hd, rfl⟩

theorem FreshFrom.mono {d : Int} (h : t.FreshFrom c) (hcd : c ≤ d) : t.FreshFrom d :=
  fun k hk => h k (hcd.trans hk)

theorem freshFrom_abs_iff {S : Ty} : (abs x S t).FreshFrom c ↔ (∀ k, c ≤ k → fresh k ≠ x) ∧ t.FreshFrom c := by
  simp only [FreshFrom, names, List.mem_cons, not_or]
  exact ⟨fun h => ⟨fun k hk => (h k hk).1, fun k hk => (h k hk).2⟩, fun h k hk => ⟨h.1 k hk, h.2 k hk⟩⟩

theorem freshFrom_cond_iff {g a b : Term} :
    (cond g a b).FreshFrom c ↔ g.FreshFrom c ∧ a.FreshFrom c ∧ b.FreshFrom c := by
  simp only [FreshFrom, names, List.mem_append, not_or]
  exact ⟨fun h => ⟨fun k hk => (h k hk).1.1, fun k hk => (h k hk).1.2, fun k hk => (h k hk).2⟩,
    fun h k hk => ⟨⟨h.1 k hk, h.2.1 k hk⟩, h.2.2 k hk⟩⟩

theorem freshFrom_app_iff {f a : Term} : (app f a).FreshFrom c ↔ f.FreshFrom c ∧ a.FreshFrom c := by
  simp only [FreshFrom, names, List.mem_append, not_or]
  exact ⟨fun h => ⟨fun k hk => (h k hk).1, fun k hk => (h k hk).2⟩, fun h k hk => ⟨h.1 k hk, h.2 k hk⟩⟩

/-- A term whose names are all without the mark of the supply. -/
theorem freshFrom_of_head? (h : ∀ x ∈ t.names, x.toList.head? ≠ some '#') (c : Int) : t.FreshFrom c :=
  fun k _ hk => fresh_ne_of_head? (h _ hk) k rfl

theorem mem_names_of_mem_freeVars (h : x ∈ t.freeVars) : x ∈ t.names := by
  induction t with
  | var y => exact h
  | abs y ty body ih => exact List.mem_cons_of_mem y (ih (List.mem_of_mem_filter h))
  | cond g a b ihg iha ihb =>
    simp only [freeVars, names, List.mem_append] at h ⊢
    exact h.imp (Or.imp ihg iha) ihb
  | app f a ihf iha =>
    simp only [freeVars, names, List.mem_append] at h ⊢
    exact h.imp ihf iha
  | unit | bool => simp [freeVars] at h

theorem swapName_eq_or (x y z : String) : swapName x y z = y ∨ swapName x y z = z := by
  rw [swapName]
  split
  · exact .inl rfl
  · exact .inr rfl

/-- Renaming brings in the new name only. -/
theorem mem_names_rename (h : z ∈ (t.rename x y).names) : z = y ∨ z ∈ t.names := by
  induction t with
  | var w =>
    rw [rename, names, List.mem_singleton] at h
    rw [names, List.mem_singleton, h]
    exact swapName_eq_or x y w
  | abs w ty body ih =>
    rw [rename, names, List.mem_cons] at h
    rcases h with rfl | h
    · exact (swapName_eq_or x y w).imp_right fun e => by simp [names, e]
    · exact (ih h).imp_right (List.mem_cons_of_mem w)
  | cond g a b ihg iha ihb =>
    simp only [rename, names, List.mem_append] at h ⊢
    tauto
  | app f a ihf iha =>
    simp only [rename, names, List.mem_append] at h ⊢
    tauto
  | unit | bool => simp [rename, names] at h

/-- The names of the result are names of the term, names of the replacement and names drawn. -/
theorem mem_names_subst (h : z ∈ (subst x u t c).1.names) :
    z ∈ t.names ∨ z ∈ u.names ∨ Drawn c (subst x u t c).2 z := by
  fun_induction subst x u t c with
  | case1 | case2 => simp [names] at h
  | case3 c y =>
    split at h
    · exact .inr (.inl h)
    · exact .inl h
  | case4 c ty body => exact .inl h
  | case5 c y ty body hy hu r ih =>
    have hc : c + 1 ≤ r.2 := cursor_le_subst x u _ (c + 1)
    have hz : Drawn c r.2 (fresh c) := ⟨c, le_rfl, by omega, rfl⟩
    rcases List.mem_cons.mp h with rfl | h
    · exact .inr (.inr hz)
    rcases ih h with h | h | h
    · rcases mem_names_rename h with rfl | h
      · exact .inr (.inr hz)
      · exact .inl (List.mem_cons_of_mem y h)
    · exact .inr (.inl h)
    · exact .inr (.inr (h.mono (by omega) le_rfl))
  | case6 c y ty body hy hu r ih =>
    rcases List.mem_cons.mp h with rfl | h
    · exact .inl List.mem_cons_self
    · exact (ih h).imp_left (List.mem_cons_of_mem y)
  | case7 c g a b rg ra rb ihg iha _ ihb =>
    have h1 : c ≤ rg.2 := cursor_le_subst x u g c
    have h2 : rg.2 ≤ ra.2 := cursor_le_subst x u a rg.2
    have h3 : ra.2 ≤ rb.2 := cursor_le_subst x u b ra.2
    simp only [names, List.mem_append] at h ⊢
    rcases h with (h | h) | h
    · exact (ihg h).imp (.inl ∘ .inl) (.imp_right fun hd => hd.mono le_rfl (h2.trans h3))
    · exact (iha h).imp (.inl ∘ .inr) (.imp_right fun hd => hd.mono h1 h3)
    · exact (ihb h).imp .inr (.imp_right fun hd => hd.mono (h1.trans h2) le_rfl)
  | case8 c f a rf ra ihf iha =>
    have h1 : c ≤ rf.2 := cursor_le_subst x u f c
    have h2 : rf.2 ≤ ra.2 := cursor_le_subst x u a rf.2
    simp only [names, List.mem_append] at h ⊢
    rcases h with h | h
    · exact (ihf h).imp .inl (.imp_right fun hd => hd.mono le_rfl h2)
    · exact (iha h).imp .inr (.imp_right fun hd => hd.mono h1 le_rfl)

/-- What a substitution puts together is fresh from the cursor that it gives back. -/
theorem FreshFrom.subst (ht : t.FreshFrom c) (hu : u.FreshFrom c) (x : String) :
    (subst x u t c).1.FreshFrom (subst x u t c).2 := by
  intro k hk hmem
  have hck : c ≤ k := (cursor_le_subst x u t c).trans hk
  rcases mem_names_subst hmem with h | h | ⟨j, -, hj, e⟩
  · exact ht k hck h
  · exact hu k hck h
  · have := fresh_injective e
    omega

end Term

end SimplyTyped
