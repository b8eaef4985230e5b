import SimplyTyped.Proofs.HasType

/-!
# SimplyTyped.Proofs.FirstFault — what the checker reports when the rules derive nothing

A node breaks its typing rule when the parts that the rule reads have types and these do not fit (`Typing.Breaks`).
The checker reports the first such node of a walk that takes subterms from left to right and before the node itself:
on the way to it every subterm further left has a type, and a guard that of the truth values (`Typing.FirstFault`).
There is one such node exactly when the rules derive no type, so the two together say all that the checker can answer
(`Typing.infer_spec`).
-/

namespace SimplyTyped

namespace Term

/-- The binding that a node makes for its subterms. -/
def binding : Term → Context
  | abs x S _ => [(x, S)]
  | _ => []

/-- The bindings that the nodes above a path make, the nearest first. -/
def bindings : Term → Path → Context
  | _, [] => []
  | t, i :: p =>
    match t.children[i]? with
    | some s => s.bindings p ++ t.binding
    | none => []

variable {t s : Term} {i : Nat}

theorem bindings_cons (hs : t.children[i]? = some s) (p : Path) : t.bindings (i :: p) = s.bindings p ++ t.binding := by
  rw [bindings, hs]

end Term

namespace Typing

/-- The subterm to blame for a fault, seen from the node whose rule is broken: the node itself, its guard or function,
or its argument. -/
def Fault.place : Fault → Path
  | unbound _ | branchMismatch _ _ => []
  | badGuard _ | notApplicable _ => [0]
  | argMismatch _ _ => [1]

/-- A node whose parts have types, as far as its rule asks for them, and whose rule does not apply. -/
inductive Breaks (Γ : Context) : Term → Fault → Prop
  | unbound {x : String} : Bindings.lookup x Γ = none → Breaks Γ (.var x) (.unbound x)
  | badGuard {g a b : Term} {G : Ty} : HasType Γ g G → G ≠ .bool → Breaks Γ (.cond g a b) (.badGuard g)
  | branchMismatch {g a b : Term} {A B : Ty} :
      HasType Γ g .bool → HasType Γ a A → HasType Γ b B → A ≠ B → Breaks Γ (.cond g a b) (.branchMismatch a b)
  | notApplicable {f a : Term} {F A : Ty} :
      HasType Γ f F → HasType Γ a A → (∀ S T, F ≠ .arrow S T) → Breaks Γ (.app f a) (.notApplicable f)
  | argMismatch {f a : Term} {S T A : Ty} :
      HasType Γ f (.arrow S T) → HasType Γ a A → S ≠ A → Breaks Γ (.app f a) (.argMismatch f a)

/-- The walk gets past child `j` of a node: the child has a type, and as a guard that of the truth values. -/
def Passes (Γ : Context) (node : Term) (j : Nat) (s : Term) : Prop :=
  ∃ S, HasType Γ s S ∧ ∀ g a b, node = .cond g a b → j = 0 → S = .bool

/-- The walk gets past all children of a node that are left of child `i`. -/
def PassesBefore (Γ : Context) (node : Term) (i : Nat) : Prop :=
  ∀ j s, j < i → node.children[j]? = some s → Passes Γ node j s

/-- The node at a path breaks its rule, under the context extended by the binders above it, and the walk gets to it:
past all that is left of the path, at each node on the way. -/
structure FirstFault (Γ : Context) (t : Term) (f : Fault) (p : Path) : Prop where
  breaks : ∃ q, t.at? p = some q ∧ Breaks (t.bindings p ++ Γ) q f
  passes : ∀ above i below node, p = above ++ i :: below → t.at? above = some node →
    PassesBefore (t.bindings above ++ Γ) node i

variable {Γ : Context} {t s : Term} {f : Fault} {e : Error} {i : Nat} {p path : Path}

theorem firstFault_nil_iff : FirstFault Γ t f [] ↔ Breaks Γ t f := by
  constructor
  · rintro ⟨⟨q, hq, hb⟩, -⟩
    obtain rfl := Option.some.inj hq
    exact hb
  · intro hb
    exact ⟨⟨t, rfl, hb⟩, fun above i below node h => by simp at h⟩

/-- A fault below child `i` is one of the child under the node's own binding. -/
theorem firstFault_cons_iff :
    FirstFault Γ t f (i :: p) ↔
      PassesBefore Γ t i ∧ ∃ s, t.children[i]? = some s ∧ FirstFault (t.binding ++ Γ) s f p := by
  constructor
  · rintro ⟨⟨q, hq, hb⟩, hp⟩
    obtain ⟨s, hs, hq⟩ := Term.at?_cons_eq_some_iff.mp hq
    rw [Term.bindings_cons hs, List.append_assoc] at hb
    refine ⟨hp [] i p t rfl rfl, s, hs, ⟨q, hq, hb⟩, fun above j below node h hn => ?_⟩
    have hn' := hp (i :: above) j below node (by rw [h, List.cons_append])
      (Term.at?_cons_eq_some_iff.mpr ⟨s, hs, hn⟩)
    rwa [Term.bindings_cons hs, List.append_assoc] at hn'
  · rintro ⟨hi, s, hs, ⟨q, hq, hb⟩, hp⟩
    refine ⟨⟨q, Term.at?_cons_eq_some_iff.mpr ⟨s, hs, hq⟩, ?_⟩, fun above j below node h hn => ?_⟩
    · rwa [Term.bindings_cons hs, List.append_assoc]
    · -- the node is `t` itself, or lies on the way from child `i`
      cases above with
      | nil =>
        obtain ⟨rfl, -⟩ := List.cons.inj h
        obtain rfl := Option.some.inj hn
        exact hi
      | cons k above =>
        rw [List.cons_append] at h
        obtain ⟨rfl, hp'⟩ := List.cons.inj h
        obtain ⟨s', hs', hn⟩ := Term.at?_cons_eq_some_iff.mp hn
        obtain rfl := Option.some.inj (hs.symm.trans hs')
        rw [Term.bindings_cons hs, List.append_assoc]
        exact hp above j below node hp' hn

/-! ## One node of the walk -/

variable {x : String} {S : Ty} {g a b fn body : Term}

theorem passesBefore_zero : PassesBefore Γ t 0 := fun _ _ hj => absurd hj (Nat.not_lt_zero _)

theorem passesBefore_succ_iff (hs : t.children[i]? = some s) :
    PassesBefore Γ t (i + 1) ↔ PassesBefore Γ t i ∧ Passes Γ t i s := by
  constructor
  · exact fun h => ⟨fun j r hj => h j r (by omega), h i s (Nat.lt_succ_self i) hs⟩
  · rintro ⟨h, hi⟩ j r hj hr
    rcases Nat.lt_succ_iff_lt_or_eq.mp hj with hj | rfl
    · exact h j r hj hr
    · obtain rfl := Option.some.inj (hs.symm.trans hr)
      exact hi

theorem passesBefore_thenBranch_iff : PassesBefore Γ (.cond g a b) 1 ↔ HasType Γ g .bool := by
  rw [passesBefore_succ_iff (s := g) rfl]
  simp [passesBefore_zero, Passes]

theorem passesBefore_elseBranch_iff :
    PassesBefore Γ (.cond g a b) 2 ↔ HasType Γ g .bool ∧ ∃ A, HasType Γ a A := by
  rw [passesBefore_succ_iff (s := a) rfl, passesBefore_thenBranch_iff]
  simp [Passes]

theorem passesBefore_argument_iff : PassesBefore Γ (.app fn a) 1 ↔ ∃ F, HasType Γ fn F := by
  rw [passesBefore_succ_iff (s := fn) rfl]
  simp [passesBefore_zero, Passes]

theorem inChild_eq_error_iff {r : Except Error Ty} :
    inChild i r = .error e ↔ ∃ e', r = .error e' ∧ e = e'.below i := by
  cases r <;> simp [inChild, eq_comm]

theorem throw_if_eq_error_iff {P : Prop} [Decidable P] {e' : Error} {next : Unit → Except Error Ty}
    {r : Except Error Ty} : (if P then throw e' >>= next else r) = .error e ↔ P ∧ e = e' ∨ ¬ P ∧ r = .error e := by
  by_cases h : P
  · simp [h, throw, throwThe, MonadExceptOf.throw, bind, Except.bind, eq_comm]
  · simp [h]

theorem applied_eq_error_iff {F A : Ty} :
    applied fn a F A = .error e ↔
      (∀ S T, F ≠ .arrow S T) ∧ e = ⟨.notApplicable fn, [0]⟩ ∨
        ∃ S T, F = .arrow S T ∧ S ≠ A ∧ e = ⟨.argMismatch fn a, [1]⟩ := by
  cases F with
  | arrow S T =>
    by_cases hS : S = A
    · simp [applied, hS]
    · simp [applied, hS, @eq_comm _ e]
  | unit | bool => simp [applied, eq_comm]

theorem infer_var_eq_error_iff :
    infer Γ (.var x) = .error e ↔ Bindings.lookup x Γ = none ∧ e = ⟨.unbound x, []⟩ := by
  rw [infer]
  cases Bindings.lookup x Γ <;> simp [eq_comm]

theorem infer_abs_eq_error_iff :
    infer Γ (.abs x S body) = .error e ↔ ∃ e', infer ((x, S) :: Γ) body = .error e' ∧ e = e'.below 0 := by
  simp [infer, bind_eq_error_iff, inChild_eq_error_iff, pure, Except.pure, Bindings.push]

theorem infer_cond_eq_error_iff :
    infer Γ (.cond g a b) = .error e ↔
      (∃ e', infer Γ g = .error e' ∧ e = e'.below 0) ∨ ∃ G, HasType Γ g G ∧
        (G ≠ .bool ∧ e = ⟨.badGuard g, [0]⟩ ∨ G = .bool ∧
          ((∃ e', infer Γ a = .error e' ∧ e = e'.below 1) ∨ ∃ A, HasType Γ a A ∧
            ((∃ e', infer Γ b = .error e' ∧ e = e'.below 2) ∨ ∃ B, HasType Γ b B ∧
              A ≠ B ∧ e = ⟨.branchMismatch a b, []⟩))) := by
  simp only [infer, bind_eq_error_iff, inChild_eq_error_iff, inChild_eq_ok_iff, infer_eq_ok_iff,
    throw_if_eq_error_iff, not_not]
  simp [pure, Except.pure]

theorem infer_app_eq_error_iff :
    infer Γ (.app fn a) = .error e ↔
      (∃ e', infer Γ fn = .error e' ∧ e = e'.below 0) ∨ ∃ F, HasType Γ fn F ∧
        ((∃ e', infer Γ a = .error e' ∧ e = e'.below 1) ∨ ∃ A, HasType Γ a A ∧
          ((∀ S T, F ≠ .arrow S T) ∧ e = ⟨.notApplicable fn, [0]⟩ ∨
            ∃ S T, F = .arrow S T ∧ S ≠ A ∧ e = ⟨.argMismatch fn a, [1]⟩)) := by
  simp only [infer, bind_eq_error_iff, inChild_eq_error_iff, inChild_eq_ok_iff, infer_eq_ok_iff,
    applied_eq_error_iff]

/-- An error of the checker is one of the node itself or comes from the first of its children that has one. -/
theorem infer_error_cases (h : infer Γ t = .error e) :
    (Breaks Γ t e.fault ∧ e.culprit = e.fault.place) ∨
      ∃ i s e', t.children[i]? = some s ∧ PassesBefore Γ t i ∧ infer (t.binding ++ Γ) s = .error e' ∧
        e = e'.below i := by
  cases t with
  | unit => cases h
  | bool p => cases h
  | var x =>
    obtain ⟨hx, rfl⟩ := infer_var_eq_error_iff.mp h
    exact .inl ⟨.unbound hx, rfl⟩
  | abs x S body =>
    obtain ⟨e', hb, rfl⟩ := infer_abs_eq_error_iff.mp h
    exact .inr ⟨0, body, e', rfl, passesBefore_zero, hb, rfl⟩
  | cond g a b =>
    obtain ⟨e', hg, rfl⟩ | ⟨G, hg, ⟨hG, rfl⟩ | ⟨rfl, h⟩⟩ := infer_cond_eq_error_iff.mp h
    · exact .inr ⟨0, g, e', rfl, passesBefore_zero, hg, rfl⟩
    · exact .inl ⟨.badGuard hg hG, rfl⟩
    · obtain ⟨e', ha, rfl⟩ | ⟨A, ha, ⟨e', hb, rfl⟩ | ⟨B, hb, hAB, rfl⟩⟩ := h
      · exact .inr ⟨1, a, e', rfl, passesBefore_thenBranch_iff.mpr hg, ha, rfl⟩
      · exact .inr ⟨2, b, e', rfl, passesBefore_elseBranch_iff.mpr ⟨hg, A, ha⟩, hb, rfl⟩
      · exact .inl ⟨.branchMismatch hg ha hb hAB, rfl⟩
  | app f a =>
    obtain ⟨e', hf, rfl⟩ | ⟨F, hf, ⟨e', ha, rfl⟩ | ⟨A, ha, h⟩⟩ := infer_app_eq_error_iff.mp h
    · exact .inr ⟨0, f, e', rfl, passesBefore_zero, hf, rfl⟩
    · exact .inr ⟨1, a, e', rfl, passesBefore_argument_iff.mpr ⟨F, hf⟩, ha, rfl⟩
    · obtain ⟨hF, rfl⟩ | ⟨S, T, rfl, hS, rfl⟩ := h
      · exact .inl ⟨.notApplicable hf ha hF, rfl⟩
      · exact .inl ⟨.argMismatch hf ha hS, rfl⟩

/-- A broken rule is reported at its node. -/
theorem infer_of_breaks (hb : Breaks Γ t f) : infer Γ t = .error ⟨f, f.place⟩ := by
  cases hb with
  | unbound hx => exact infer_var_eq_error_iff.mpr ⟨hx, rfl⟩
  | badGuard hg hG => exact infer_cond_eq_error_iff.mpr (.inr ⟨_, hg, .inl ⟨hG, rfl⟩⟩)
  | branchMismatch hg ha hb hAB =>
    exact infer_cond_eq_error_iff.mpr (.inr ⟨_, hg, .inr ⟨rfl, .inr ⟨_, ha, .inr ⟨_, hb, hAB, rfl⟩⟩⟩⟩)
  | notApplicable hf ha hF => exact infer_app_eq_error_iff.mpr (.inr ⟨_, hf, .inr ⟨_, ha, .inl ⟨hF, rfl⟩⟩⟩)
  | argMismatch hf ha hS =>
    exact infer_app_eq_error_iff.mpr (.inr ⟨_, hf, .inr ⟨_, ha, .inr ⟨_, _, rfl, hS, rfl⟩⟩⟩)

/-- The error of a child is reported when the walk gets past those before it. -/
theorem infer_of_child (hs : t.children[i]? = some s) (hp : PassesBefore Γ t i)
    (he : infer (t.binding ++ Γ) s = .error e) : infer Γ t = .error (e.below i) := by
  cases t with
  | unit | bool | var => cases hs
  | abs x S body =>
    match i, hs with
    | 0, rfl => exact infer_abs_eq_error_iff.mpr ⟨e, he, rfl⟩
  | cond g a b =>
    match i, hs with
    | 0, rfl => exact infer_cond_eq_error_iff.mpr (.inl ⟨e, he, rfl⟩)
    | 1, rfl =>
      have hg := passesBefore_thenBranch_iff.mp hp
      exact infer_cond_eq_error_iff.mpr (.inr ⟨_, hg, .inr ⟨rfl, .inl ⟨e, he, rfl⟩⟩⟩)
    | 2, rfl =>
      obtain ⟨hg, A, ha⟩ := passesBefore_elseBranch_iff.mp hp
      exact infer_cond_eq_error_iff.mpr (.inr ⟨_, hg, .inr ⟨rfl, .inr ⟨A, ha, .inl ⟨e, he, rfl⟩⟩⟩⟩)
  | app f a =>
    match i, hs with
    | 0, rfl => exact infer_app_eq_error_iff.mpr (.inl ⟨e, he, rfl⟩)
    | 1, rfl =>
      obtain ⟨F, hf⟩ := passesBefore_argument_iff.mp hp
      exact infer_app_eq_error_iff.mpr (.inr ⟨F, hf, .inl ⟨e, he, rfl⟩⟩)

/-! ## The whole walk -/

/-- **The checker reports the first fault**, and blames the place that its class says. -/
theorem infer_eq_error_iff : infer Γ t = .error ⟨f, path⟩ ↔ ∃ p, FirstFault Γ t f p ∧ path = p ++ f.place := by
  constructor
  -- the node is found by induction on the term, the error by induction on the path to the node
  · intro h
    induction t using Term.induction_children generalizing Γ path with
    | step t ih =>
      obtain ⟨hb, hc⟩ | ⟨i, s, e, hs, hp, he, heq⟩ := infer_error_cases h
      · exact ⟨[], firstFault_nil_iff.mpr hb, hc⟩
      · obtain ⟨rfl, rfl⟩ := Error.mk.inj heq
        obtain ⟨p, hf, hc⟩ := ih s (List.mem_of_getElem? hs) he
        exact ⟨i :: p, firstFault_cons_iff.mpr ⟨hp, s, hs, hf⟩, by rw [hc, List.cons_append]⟩
  · rintro ⟨p, hf, rfl⟩
    induction p generalizing Γ t with
    | nil => exact infer_of_breaks (firstFault_nil_iff.mp hf)
    | cons i p ih =>
      obtain ⟨hp, s, hs, hf⟩ := firstFault_cons_iff.mp hf
      exact infer_of_child hs hp (ih hf)

/-- The checker reports a fault exactly when the rules derive nothing. -/
theorem exists_error_iff : (∃ e, infer Γ t = .error e) ↔ ∀ T, ¬ HasType Γ t T := by
  constructor
  · rintro ⟨e, he⟩ T hT
    rw [infer_eq_ok_iff.mpr hT] at he
    cases he
  · intro h
    cases hi : infer Γ t with
    | ok T => exact absurd (infer_eq_ok_iff.mp hi) (h T)
    | error e => exact ⟨e, rfl⟩

/-- **All that the checker can answer.**  A plain list of bindings, the most recent one first, is the context that it
makes when they are pushed.  Under every context the checker gives the types that the rules derive, and without one it
reports the first fault with the place to blame: the node that breaks its rule, or the guard, the function or the
argument there. -/
theorem infer_spec (Γ : Context) (t : Term) :
    Bindings.ofList Γ = Γ ∧
    (∀ T, infer Γ t = .ok T ↔ HasType Γ t T) ∧
    ((∃ e, infer Γ t = .error e) ↔ ∀ T, ¬ HasType Γ t T) ∧
    ∀ f path, infer Γ t = .error ⟨f, path⟩ ↔ ∃ p, FirstFault Γ t f p ∧ path = p ++ f.place :=
  ⟨Bindings.ofList_eq Γ, fun _ => infer_eq_ok_iff, exists_error_iff, fun _ _ => infer_eq_error_iff⟩

/-- The argument is looked at before it matters that what it is given to is no function. -/
example : infer [] (.app (.bool true) (.var "x")) = .error ⟨.unbound "x", [1]⟩ := rfl

end Typing

end SimplyTyped
