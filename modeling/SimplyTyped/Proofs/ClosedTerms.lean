import Mathlib
import SimplyTyped.Proofs.Lifetime

/-!
# SimplyTyped.Proofs.ClosedTerms — a closed term is reduced without a single fresh name

A replacement without free names makes no binder change its name, so a substitution of it draws nothing, and it leaves
no binder that was in neither term (`Term.subst_closed`).  In a closed term every argument is closed, and contracting
keeps it so: by induction on the reduction the value is closed as well (`Term.Evaluates.closed`).

A reduction may also be given up or never end.  `Machine.Reaches` lists the terms that its loop comes to, in the
reductions of guards and functions too, with the machine as it is then; the same invariant holds of all of them.
-/

namespace SimplyTyped

namespace Term

/-- The binders with their types, in preorder. -/
def binders : Term → List (String × Ty)
  | unit | bool _ | var _ => []
  | abs x ty body => (x, ty) :: body.binders
  | cond g a b => g.binders ++ a.binders ++ b.binders
  | app f a => f.binders ++ a.binders

variable {t u v f a b g body : Term} {x : String} {ty : Ty} {q : Bool} {c d : Int} {n : Nat}

theorem freeVars_cond_eq_nil_iff :
    (cond g a b).freeVars = [] ↔ g.freeVars = [] ∧ a.freeVars = [] ∧ b.freeVars = [] := by
  simp [freeVars]

theorem freeVars_app_eq_nil_iff : (app f a).freeVars = [] ↔ f.freeVars = [] ∧ a.freeVars = [] := by
  simp [freeVars]

theorem freeVars_abs_eq_nil_iff : (abs x ty body).freeVars = [] ↔ ∀ y ∈ body.freeVars, y = x := by
  simp [freeVars]

/-- What a substitution of a closed term does: it draws nothing, takes the name away, and brings in no binder but
those of the term that is put. -/
structure PutsClosed (x : String) (u t : Term) (c : Int) : Prop where
  cursor : (subst x u t c).2 = c
  frees : ∀ y ∈ (subst x u t c).1.freeVars, y ∈ t.freeVars ∧ y ≠ x
  binders : ∀ p ∈ (subst x u t c).1.binders, p ∈ t.binders ∨ p ∈ u.binders

theorem subst_closed (hu : u.freeVars = []) (x : String) (t : Term) (c : Int) : PutsClosed x u t c := by
  induction t generalizing c with
  | unit | bool => constructor <;> simp [subst, freeVars, Term.binders]
  | var y =>
    by_cases hy : y = x
    · constructor <;> simp [subst, hy, hu]
      tauto
    · constructor <;> simp [subst, hy, freeVars, Term.binders]
  | abs y ty body ih =>
    by_cases hy : y = x
    · constructor
      · simp [subst, hy]
      · intro z hz
        rw [subst, if_pos hy] at hz
        refine ⟨hz, ?_⟩
        rintro rfl
        simp [freeVars, hy] at hz
      · intro p hp
        rw [subst, if_pos hy] at hp
        exact .inl hp
    · have hyu : y ∉ u.freeVars := by simp [hu]
      have h := ih c
      constructor
      · simp [subst, hy, hyu, h.cursor]
      · intro z hz
        simp only [subst, if_neg hy, if_neg hyu, freeVars, List.mem_filter] at hz ⊢
        exact ⟨⟨(h.frees z hz.1).1, hz.2⟩, (h.frees z hz.1).2⟩
      · intro p hp
        simp only [subst, if_neg hy, if_neg hyu, Term.binders, List.mem_cons] at hp ⊢
        exact hp.elim (fun e => .inl (.inl e)) fun hp => (h.binders p hp).imp_left .inr
  | cond g a b ihg iha ihb =>
    have hg := ihg c
    have ha := iha c
    have hb := ihb c
    constructor
    · simp [subst, hg.cursor, ha.cursor, hb.cursor]
    · intro z hz
      simp only [subst, hg.cursor, ha.cursor, freeVars, List.mem_append] at hz ⊢
      rcases hz with (hz | hz) | hz
      · exact (hg.frees z hz).imp_left fun h => .inl (.inl h)
      · exact (ha.frees z hz).imp_left fun h => .inl (.inr h)
      · exact (hb.frees z hz).imp_left .inr
    · intro p hp
      simp only [subst, hg.cursor, ha.cursor, Term.binders, List.mem_append] at hp ⊢
      rcases hp with (hp | hp) | hp
      · exact (hg.binders p hp).imp_left fun h => .inl (.inl h)
      · exact (ha.binders p hp).imp_left fun h => .inl (.inr h)
      · exact (hb.binders p hp).imp_left .inr
  | app f a ihf iha =>
    have hf := ihf c
    have ha := iha c
    constructor
    · simp [subst, hf.cursor, ha.cursor]
    · intro z hz
      simp only [subst, hf.cursor, freeVars, List.mem_append] at hz ⊢
      rcases hz with hz | hz
      · exact (hf.frees z hz).imp_left .inl
      · exact (ha.frees z hz).imp_left .inr
    · intro p hp
      simp only [subst, hf.cursor, Term.binders, List.mem_append] at hp ⊢
      rcases hp with hp | hp
      · exact (hf.binders p hp).imp_left .inl
      · exact (ha.binders p hp).imp_left .inr

/-- What a term keeps of another one that it comes from: it is closed like that, and all its binders are there. -/
def Within (v t : Term) : Prop := v.freeVars = [] ∧ ∀ p ∈ v.binders, p ∈ t.binders

theorem Within.trans {w : Term} (h : w.Within v) (h' : v.Within t) : w.Within t :=
  ⟨h.1, fun p hp => h'.2 p (h.2 p hp)⟩

theorem within_self (h : t.freeVars = []) : t.Within t := ⟨h, fun _ hp => hp⟩

theorem within_guard (h : (cond g a b).freeVars = []) : g.Within (cond g a b) :=
  ⟨(freeVars_cond_eq_nil_iff.mp h).1, fun p hp => by simp [binders, hp]⟩

theorem within_branch (h : (cond (bool q) a b).freeVars = []) :
    (if q then a else b).Within (cond (bool q) a b) := by
  obtain ⟨-, ha, hb⟩ := freeVars_cond_eq_nil_iff.mp h
  cases q with
  | true => exact ⟨ha, fun p hp => by simp at hp; simp [binders, hp]⟩
  | false => exact ⟨hb, fun p hp => by simp at hp; simp [binders, hp]⟩

theorem within_function (h : (app f a).freeVars = []) : f.Within (app f a) :=
  ⟨(freeVars_app_eq_nil_iff.mp h).1, fun p hp => by simp [binders, hp]⟩

/-- A new guard that keeps to the old one makes a conditional that keeps to the old one. -/
theorem Within.cond (hv : v.Within g) (h : (cond g a b).freeVars = []) : (cond v a b).Within (cond g a b) := by
  obtain ⟨-, ha, hb⟩ := freeVars_cond_eq_nil_iff.mp h
  refine ⟨freeVars_cond_eq_nil_iff.mpr ⟨hv.1, ha, hb⟩, fun p hp => ?_⟩
  simp only [binders, List.mem_append] at hp ⊢
  exact hp.imp_left (.imp_left (hv.2 p))

theorem Within.app (hv : v.Within f) (h : (app f a).freeVars = []) : (app v a).Within (app f a) := by
  obtain ⟨-, ha⟩ := freeVars_app_eq_nil_iff.mp h
  refine ⟨freeVars_app_eq_nil_iff.mpr ⟨hv.1, ha⟩, fun p hp => ?_⟩
  simp only [binders, List.mem_append] at hp ⊢
  exact hp.imp_left (hv.2 p)

/-- A closed redex is contracted to a closed term, and nothing is drawn for it. -/
theorem within_contractum (h : (app (abs x ty body) a).freeVars = []) (c : Int) :
    (subst x a body c).2 = c ∧ (subst x a body c).1.Within (app (abs x ty body) a) := by
  obtain ⟨hf, ha⟩ := freeVars_app_eq_nil_iff.mp h
  have hs := subst_closed ha x body c
  refine ⟨hs.cursor, List.eq_nil_iff_forall_not_mem.mpr fun y hy => ?_, fun p hp => ?_⟩
  · obtain ⟨hm, hne⟩ := hs.frees y hy
    exact hne (freeVars_abs_eq_nil_iff.mp hf y hm)
  · simp only [binders, List.mem_append, List.mem_cons]
    exact (hs.binders p hp).imp_left .inr

/-- **The value of a closed term is closed**, its binders are among those of the term, and nothing is drawn. -/
theorem Evaluates.closed (h : Evaluates t c n v d) (ht : t.freeVars = []) : d = c ∧ v.Within t := by
  induction h with
  | unit | bool | var | abs => exact ⟨rfl, within_self ht⟩
  | branch _ ih =>
    have hb := within_branch ht
    obtain ⟨hd, hv⟩ := ih hb.1
    exact ⟨hd, hv.trans hb⟩
  | guard _ _ _ ihg ih =>
    obtain ⟨rfl, hg⟩ := ihg (within_guard ht).1
    have hc := hg.cond ht
    obtain ⟨he, hv⟩ := ih hc.1
    exact ⟨he, hv.trans hc⟩
  | stuckGuard _ _ _ ihg =>
    obtain ⟨hd, hg⟩ := ihg (within_guard ht).1
    exact ⟨hd, hg.cond ht⟩
  | @beta x ty body a v c d n _ ih =>
    obtain ⟨hc, hr⟩ := within_contractum ht c
    obtain ⟨hd, hv⟩ := ih hr.1
    exact ⟨hd.trans hc, hv.trans hr⟩
  | function _ _ _ ihf ih =>
    obtain ⟨rfl, hf⟩ := ihf (within_function ht).1
    have hc := hf.app ht
    obtain ⟨he, hv⟩ := ih hc.1
    exact ⟨he, hv.trans hc⟩
  | stuckFunction _ _ _ ihf =>
    obtain ⟨hd, hf⟩ := ihf (within_function ht).1
    exact ⟨hd, hf.app ht⟩

end Term

namespace Machine

open Term

/-- The reduction of a term comes to another term, at the head of its own loop or of the loop of a reduction nested in
it, and the machine is then as given last.  A step was counted, and the bound not passed, for each term on the way. -/
inductive Reaches : Term → Machine → Term → Machine → Prop
  | here {t : Term} {m : Machine} : Reaches t m t m
  /-- The guard is a literal, and the loop goes on with a branch. -/
  | branch {p : Bool} {a b s : Term} {m m' : Machine} : ¬ m.tick.isSpent = true →
      Reaches (if p then a else b) m.tick s m' → Reaches (.cond (.bool p) a b) m s m'
  /-- Somewhere in the reduction of the guard. -/
  | guard {g a b s : Term} {m m' : Machine} : ¬ m.tick.isSpent = true → g.truth? = none →
      Reaches g m.tick s m' → Reaches (.cond g a b) m s m'
  /-- The guard has become a literal. -/
  | decided {fuel : Nat} {g a b s : Term} {p : Bool} {m m₁ m' : Machine} : ¬ m.tick.isSpent = true →
      g.truth? = none → reduce fuel g m.tick = (.value (.bool p), m₁) →
      Reaches (.cond (.bool p) a b) m₁ s m' → Reaches (.cond g a b) m s m'
  /-- The function is an abstraction, and the loop goes on with its body. -/
  | beta {x : String} {ty : Ty} {body a s : Term} {m m' : Machine} : ¬ m.tick.isSpent = true →
      Reaches (m.tick.subst x a body).1 (m.tick.subst x a body).2 s m' →
      Reaches (.app (.abs x ty body) a) m s m'
  /-- Somewhere in the reduction of the function. -/
  | function {f a s : Term} {m m' : Machine} : ¬ m.tick.isSpent = true → f.lambda? = none →
      Reaches f m.tick s m' → Reaches (.app f a) m s m'
  /-- The function has become an abstraction. -/
  | applied {fuel : Nat} {f a body s : Term} {x : String} {ty : Ty} {m m₁ m' : Machine} :
      ¬ m.tick.isSpent = true → f.lambda? = none → reduce fuel f m.tick = (.value (.abs x ty body), m₁) →
      Reaches (.app (.abs x ty body) a) m₁ s m' → Reaches (.app f a) m s m'

variable {fuel : Nat} {s t v : Term} {m m' : Machine}

/-- The value of a closed term, found by a machine. -/
theorem closed_of_reduce (h : reduce fuel t m = (.value v, m')) (ht : t.freeVars = []) :
    m'.cursor = m.cursor ∧ v.Within t := by
  obtain ⟨n, d, he, -, rfl⟩ := evaluates_of_reduce h
  exact he.closed ht

/-- **Every term that the reduction of a closed term comes to is closed**, and nothing was drawn until then. -/
theorem Reaches.closed (h : Reaches t m s m') (ht : t.freeVars = []) : m'.cursor = m.cursor ∧ s.Within t := by
  induction h with
  | here => exact ⟨rfl, within_self ht⟩
  | branch _ _ ih =>
    have hb := within_branch ht
    obtain ⟨hc, hs⟩ := ih hb.1
    exact ⟨hc, hs.trans hb⟩
  | guard _ _ _ ih =>
    have hg := within_guard ht
    obtain ⟨hc, hs⟩ := ih hg.1
    exact ⟨hc, hs.trans hg⟩
  | decided _ _ hr _ ih =>
    obtain ⟨hc, hg⟩ := closed_of_reduce hr (within_guard ht).1
    have hcond := hg.cond ht
    obtain ⟨hc', hs⟩ := ih hcond.1
    exact ⟨hc'.trans hc, hs.trans hcond⟩
  | @beta x ty body a s m m' _ _ ih =>
    obtain ⟨hc, hr⟩ := within_contractum ht m.cursor
    obtain ⟨hc', hs⟩ := ih hr.1
    exact ⟨hc'.trans hc, hs.trans hr⟩
  | function _ _ _ ih =>
    have hf := within_function ht
    obtain ⟨hc, hs⟩ := ih hf.1
    exact ⟨hc, hs.trans hf⟩
  | applied _ _ hr _ ih =>
    obtain ⟨hc, hf⟩ := closed_of_reduce hr (within_function ht).1
    have happ := hf.app ht
    obtain ⟨hc', hs⟩ := ih happ.1
    exact ⟨hc'.trans hc, hs.trans happ⟩

/-- A reduction without a value was left off at a term that its loop had come to: a term that was given up is that
term, and nothing was drawn for it any more. -/
theorem exists_reaches_of_reduce {w : Verdict} (h : reduce fuel t m = (w, m')) (hw : ∀ v, w ≠ .value v) :
    ∃ s m'', Reaches t m s m'' ∧ m'.cursor = m''.cursor ∧ ∀ u, w = .exceeded u → u = s := by
  fun_induction reduce fuel t m generalizing w m'
  case case1 t m =>
    obtain ⟨rfl, rfl⟩ := Prod.mk.inj h
    exact ⟨t, m, .here, rfl, fun u hu => by cases hu⟩
  case case2 | case8 =>
    obtain ⟨rfl, rfl⟩ := Prod.mk.inj h
    exact ⟨_, _, .here, rfl, fun u hu => (Verdict.exceeded.inj hu).symm⟩
  case case3 fuel g a b m hs p hg ih =>
    obtain rfl := truth?_eq_some hg
    obtain ⟨s, m'', hr, hc⟩ := ih h hw
    exact ⟨s, m'', .branch hs hr, hc⟩
  case case4 fuel g a b m hs hg g' m₁ hr hg' ih ih' =>
    obtain ⟨p, hp⟩ := Option.isSome_iff_exists.mp hg'
    obtain rfl := truth?_eq_some hp
    obtain ⟨s, m'', hr', hc⟩ := ih' h hw
    exact ⟨s, m'', .decided hs hg hr hr', hc⟩
  case case5 | case11 | case14 | case15 | case16 | case17 => exact absurd (Prod.mk.inj h).1.symm (hw _)
  case case6 fuel g a b m hs hg u m₁ hr ih | case7 fuel g a b m hs hg m₁ hr ih =>
    obtain ⟨rfl, rfl⟩ := Prod.mk.inj h
    obtain ⟨s, m'', hr', hc⟩ := ih hr hw
    exact ⟨s, m'', .guard hs hg hr', hc⟩
  case case9 fuel f a m hs x body hf r ih =>
    obtain ⟨ty, rfl⟩ := lambda?_eq_some hf
    obtain ⟨s, m'', hr, hc⟩ := ih h hw
    exact ⟨s, m'', .beta hs hr, hc⟩
  case case10 fuel f a m hs hf f' m₁ hr hf' ih ih' =>
    obtain ⟨l, hl⟩ := Option.isSome_iff_exists.mp hf'
    obtain ⟨ty, rfl⟩ := lambda?_eq_some hl
    obtain ⟨s, m'', hr', hc⟩ := ih' h hw
    exact ⟨s, m'', .applied hs hf hr hr', hc⟩
  case case12 fuel f a m hs hf u m₁ hr ih | case13 fuel f a m hs hf m₁ hr ih =>
    obtain ⟨rfl, rfl⟩ := Prod.mk.inj h
    obtain ⟨s, m'', hr', hc⟩ := ih hr hw
    exact ⟨s, m'', .function hs hf hr', hc⟩

/-- The cursor of a closed reduction stays where it is, however the reduction ends. -/
theorem cursor_reduce_of_closed (ht : t.freeVars = []) (fuel : Nat) (m : Machine) :
    (reduce fuel t m).2.cursor = m.cursor := by
  rcases hr : reduce fuel t m with ⟨w, m'⟩
  by_cases hw : ∃ v, w = .value v
  · obtain ⟨v, rfl⟩ := hw
    exact (closed_of_reduce hr ht).1
  · obtain ⟨s, m'', hs, hc, -⟩ := exists_reaches_of_reduce hr fun v h => hw ⟨v, h⟩
    exact hc.trans (hs.closed ht).1

/-- A reduction of a closed term, also one that is given up at a bound or runs out of fuel. -/
structure StaysClosed (limit : Option Int) (fuel : Nat) (t : Term) : Prop where
  /-- The supply is where it was at the start. -/
  cursor : ((start limit).run fuel t).2.cursor = 0
  /-- No name is drawn. -/
  draws : draws (fuelFor limit fuel) t (start limit) = []
  /-- The terms that the loop comes to are closed, and so far the supply is where it was. -/
  reached : ∀ s m, Reaches t (start limit) s m → s.freeVars = [] ∧ m.cursor = 0
  /-- The term at which the reduction is given up is one of them. -/
  exceeded : ∀ u, ((start limit).run fuel t).1 = .exceeded u → ∃ m, Reaches t (start limit) u m
  /-- The value is closed, and its binders are binders of the term, with their types. -/
  value : ∀ v, ((start limit).run fuel t).1 = .value v → v.freeVars = [] ∧ ∀ p ∈ v.binders, p ∈ t.binders

/-- **A closed term is reduced without fresh names**, whatever its types and names are and whatever the bound is. -/
theorem staysClosed (ht : t.freeVars = []) (limit : Option Int) (fuel : Nat) : StaysClosed limit fuel t := by
  have hcursor := cursor_reduce_of_closed ht (fuelFor limit fuel) (start limit)
  refine ⟨hcursor, ?_, ?_, ?_, ?_⟩
  · obtain ⟨n, hd, hc⟩ := handsOut_draws (fuelFor limit fuel) t (start limit)
    obtain rfl : n = 0 := by omega
    exact hd
  · intro s m hs
    obtain ⟨hc, hw⟩ := hs.closed ht
    exact ⟨hw.1, hc⟩
  · intro u hu
    obtain ⟨s, m, hs, -, he⟩ := exists_reaches_of_reduce (Prod.ext hu rfl) (by simp)
    exact ⟨m, he u rfl ▸ hs⟩
  · intro v hv
    exact (closed_of_reduce (Prod.ext hv rfl) ht).2

/-- An application that has no type, with binders named like names of the supply. -/
theorem staysClosed_of_untyped_application :
    let t : Term := .app (.app (.abs "#0" .bool (.abs "#1" .unit (.var "#0"))) (.abs "#1" .bool (.var "#1"))) .unit
    t.freeVars = [] ∧ StaysClosed (some 3) 0 t ∧
      ((start (some 3)).run 0 t).1 = .value (.abs "#1" .bool (.var "#1")) := by
  intro t
  have ht : t.freeVars = [] := by decide
  exact ⟨ht, staysClosed ht (some 3) 0, by unfold t; cbv⟩

end Machine

end SimplyTyped
