import SimplyTyped.Proofs.Nameless
import SimplyTyped.Typing

/-!
# SimplyTyped.Proofs.HasType — the typing rules, for terms and for nameless terms

`Typing.HasType` states the rules on terms; a variable has the type of its most recent binding.  The checker accepts
exactly what they derive (`Typing.infer_eq_ok_iff`).  `Nameless.HasType` states them on nameless terms, with a list of
types for the binders around a term and a type for each free name; the names of bound variables play no part in
typing, so both say the same of a term (`Typing.hasType_iff_nameless`).
-/

namespace SimplyTyped

namespace Typing

/-- The typing rules. -/
inductive HasType : Context → Term → Ty → Prop
  | unit {Γ : Context} : HasType Γ .unit .unit
  | bool {Γ : Context} {p : Bool} : HasType Γ (.bool p) .bool
  | var {Γ : Context} {x : String} {T : Ty} : Bindings.lookup x Γ = some T → HasType Γ (.var x) T
  | abs {Γ : Context} {x : String} {S T : Ty} {body : Term} :
      HasType (Bindings.push x S Γ) body T → HasType Γ (.abs x S body) (.arrow S T)
  | cond {Γ : Context} {g a b : Term} {T : Ty} :
      HasType Γ g .bool → HasType Γ a T → HasType Γ b T → HasType Γ (.cond g a b) T
  | app {Γ : Context} {f a : Term} {S T : Ty} :
      HasType Γ f (.arrow S T) → HasType Γ a S → HasType Γ (.app f a) T

variable {Γ : Context} {t : Term} {T : Ty}

theorem inChild_eq_ok_iff {i : Nat} {r : Except Error Ty} : inChild i r = .ok T ↔ r = .ok T := by
  cases r <;> simp [inChild]

theorem applied_eq_ok_iff {f a : Term} {F S : Ty} : applied f a F S = .ok T ↔ F = .arrow S T := by
  cases F with
  | arrow D C =>
    rw [applied]
    split
    · next h => simp [h]
    · next h => simp [h]
  | unit | bool => simp [applied]

theorem infer_abs_eq_ok_iff {x : String} {S : Ty} {body : Term} :
    infer Γ (.abs x S body) = .ok T ↔ ∃ C, infer (Bindings.push x S Γ) body = .ok C ∧ T = .arrow S C := by
  simp only [infer, bind_eq_ok_iff, inChild_eq_ok_iff]
  simp [pure, Except.pure, eq_comm]

theorem infer_cond_eq_ok_iff {g a b : Term} :
    infer Γ (.cond g a b) = .ok T ↔ infer Γ g = .ok .bool ∧ infer Γ a = .ok T ∧ infer Γ b = .ok T := by
  rw [infer]
  constructor
  · intro h
    obtain ⟨G, hg, h⟩ := bind_eq_ok_iff.mp h
    by_cases hG : G = .bool
    · subst hG
      rw [if_neg (by simp)] at h
      obtain ⟨A, ha, h⟩ := bind_eq_ok_iff.mp h
      obtain ⟨B, hb, h⟩ := bind_eq_ok_iff.mp h
      by_cases hAB : A = B
      · subst hAB
        rw [if_neg (by simp)] at h
        obtain rfl : A = T := Except.ok.inj h
        exact ⟨inChild_eq_ok_iff.mp hg, inChild_eq_ok_iff.mp ha, inChild_eq_ok_iff.mp hb⟩
      · rw [if_pos hAB] at h
        cases h
    · rw [if_pos hG] at h
      cases h
  · rintro ⟨hg, ha, hb⟩
    refine bind_eq_ok_iff.mpr ⟨_, inChild_eq_ok_iff.mpr hg, ?_⟩
    rw [if_neg (by simp)]
    refine bind_eq_ok_iff.mpr ⟨_, inChild_eq_ok_iff.mpr ha, ?_⟩
    refine bind_eq_ok_iff.mpr ⟨_, inChild_eq_ok_iff.mpr hb, ?_⟩
    rw [if_neg (by simp)]
    rfl

theorem infer_app_eq_ok_iff {f a : Term} :
    infer Γ (.app f a) = .ok T ↔ ∃ S, infer Γ f = .ok (.arrow S T) ∧ infer Γ a = .ok S := by
  simp only [infer, bind_eq_ok_iff, inChild_eq_ok_iff, applied_eq_ok_iff]
  constructor
  · rintro ⟨F, hf, S, ha, rfl⟩
    exact ⟨S, hf, ha⟩
  · rintro ⟨S, hf, ha⟩
    exact ⟨_, hf, S, ha, rfl⟩

/-- **The checker accepts what the rules derive.** -/
theorem infer_eq_ok_iff : infer Γ t = .ok T ↔ HasType Γ t T := by
  induction t generalizing Γ T with
  | unit =>
    constructor
    · intro h
      obtain rfl := Except.ok.inj h
      exact .unit
    · rintro ⟨⟩
      rfl
  | bool p =>
    constructor
    · intro h
      obtain rfl := Except.ok.inj h
      exact .bool
    · rintro ⟨⟩
      rfl
  | var x =>
    rw [infer]
    constructor
    · intro h
      cases hx : Bindings.lookup x Γ with
      | none => simp [hx] at h
      | some S =>
        rw [hx] at h
        obtain rfl := Except.ok.inj h
        exact .var hx
    · rintro (_ | _ | hx)
      rw [hx]
  | abs x S body ih =>
    rw [infer_abs_eq_ok_iff]
    constructor
    · rintro ⟨C, hC, rfl⟩
      exact .abs (ih.mp hC)
    · rintro (_ | _ | _ | hb)
      exact ⟨_, ih.mpr hb, rfl⟩
  | cond g a b ihg iha ihb =>
    rw [infer_cond_eq_ok_iff, ihg, iha, ihb]
    constructor
    · rintro ⟨hg, ha, hb⟩
      exact .cond hg ha hb
    · rintro (_ | _ | _ | _ | ⟨hg, ha, hb⟩)
      exact ⟨hg, ha, hb⟩
  | app f a ihf iha =>
    rw [infer_app_eq_ok_iff]
    constructor
    · rintro ⟨S, hf, ha⟩
      exact .app (ihf.mp hf) (iha.mp ha)
    · rintro (_ | _ | _ | _ | _ | ⟨hf, ha⟩)
      exact ⟨_, ihf.mpr hf, iha.mpr ha⟩

section
variable {α : Type} {Γ Δ : Bindings α} {x y : String}

theorem lookup_push_self (x : String) (a : α) (Γ : Bindings α) : Bindings.lookup x (Bindings.push x a Γ) = some a :=
  if_pos rfl

theorem lookup_push_of_ne (h : y ≠ x) (a : α) (Γ : Bindings α) :
    Bindings.lookup x (Bindings.push y a Γ) = Bindings.lookup x Γ :=
  if_neg h

/-- One more binding hides what two contexts say of its name. -/
theorem lookup_push_congr (a : α) (h : x ≠ y → Bindings.lookup x Γ = Bindings.lookup x Δ) :
    Bindings.lookup x (Bindings.push y a Γ) = Bindings.lookup x (Bindings.push y a Δ) := by
  by_cases hy : y = x
  · subst hy
    rw [lookup_push_self, lookup_push_self]
  · rw [lookup_push_of_ne hy, lookup_push_of_ne hy, h (Ne.symm hy)]

theorem lookup_push_comm (h : y ≠ x) (a b : α) (Γ : Bindings α) (z : String) :
    Bindings.lookup z (Bindings.push x a (Bindings.push y b Γ)) =
      Bindings.lookup z (Bindings.push y b (Bindings.push x a Γ)) := by
  by_cases hx : x = z
  · subst hx
    rw [lookup_push_self, lookup_push_of_ne h, lookup_push_self]
  · rw [lookup_push_of_ne hx]
    exact lookup_push_congr b fun _ => (lookup_push_of_ne hx a Γ).symm

end

/-- The checker reads no more of a context than what it says of the free names. -/
theorem infer_congr {Δ : Context} (h : ∀ x ∈ t.freeVars, Bindings.lookup x Γ = Bindings.lookup x Δ) :
    infer Γ t = infer Δ t := by
  induction t generalizing Γ Δ with
  | unit | bool => rfl
  | var x => rw [infer, infer, h x (List.mem_singleton_self x)]
  | abs x S body ih =>
    rw [infer, infer, ih fun y hy => lookup_push_congr S fun hyx => h y (by simp [Term.freeVars, hy, hyx])]
  | cond g a b ihg iha ihb =>
    simp only [Term.freeVars, List.mem_append] at h
    rw [infer, infer, ihg fun x hx => h x (.inl (.inl hx)), iha fun x hx => h x (.inl (.inr hx)),
      ihb fun x hx => h x (.inr hx)]
  | app f a ihf iha =>
    simp only [Term.freeVars, List.mem_append] at h
    rw [infer, infer, ihf fun x hx => h x (.inl hx), iha fun x hx => h x (.inr hx)]

theorem hasType_congr {Δ : Context} (h : ∀ x ∈ t.freeVars, Bindings.lookup x Γ = Bindings.lookup x Δ) :
    HasType Γ t T ↔ HasType Δ t T := by
  rw [← infer_eq_ok_iff, ← infer_eq_ok_iff, infer_congr h]

end Typing

/-! ## Nameless terms -/

namespace Nameless

/-- The typing rules for nameless terms, with types for the free names and for the binders around the term, the
nearest first. -/
inductive HasType (Γ : String → Option Ty) : List Ty → Nameless → Ty → Prop
  | unit {Δ : List Ty} : HasType Γ Δ .unit .unit
  | bool {Δ : List Ty} {p : Bool} : HasType Γ Δ (.bool p) .bool
  | bound {Δ : List Ty} {i : Nat} {T : Ty} : Δ[i]? = some T → HasType Γ Δ (.bound i) T
  | free {Δ : List Ty} {x : String} {T : Ty} : Γ x = some T → HasType Γ Δ (.free x) T
  | abs {Δ : List Ty} {S T : Ty} {body : Nameless} :
      HasType Γ (S :: Δ) body T → HasType Γ Δ (.abs S body) (.arrow S T)
  | cond {Δ : List Ty} {g a b : Nameless} {T : Ty} :
      HasType Γ Δ g .bool → HasType Γ Δ a T → HasType Γ Δ b T → HasType Γ Δ (.cond g a b) T
  | app {Δ : List Ty} {f a : Nameless} {S T : Ty} :
      HasType Γ Δ f (.arrow S T) → HasType Γ Δ a S → HasType Γ Δ (.app f a) T

variable {Γ : String → Option Ty} {Δ : List Ty} {t u : Nameless} {S T : Ty}

theorem HasType.fits (h : HasType Γ Δ t T) : t.Fits Δ.length := by
  induction h with
  | bound hi => exact (List.getElem?_eq_some_iff.mp hi).1
  | abs _ ih => exact ih
  | cond _ _ _ ihg iha ihb => exact ⟨ihg, iha, ihb⟩
  | app _ _ ihf iha => exact ⟨ihf, iha⟩
  | unit | bool | free => trivial

/-- A typed term has no free names but those with a type. -/
theorem HasType.isSome_of_mem_frees {x : String} (h : HasType Γ Δ t T) (hx : x ∈ t.frees) : (Γ x).isSome := by
  induction h with
  | free hy =>
    rw [List.mem_singleton.mp hx, hy]
    rfl
  | abs _ ih => exact ih hx
  | cond _ _ _ ihg iha ihb =>
    rcases List.mem_append.mp hx with hx | hx
    · exact (List.mem_append.mp hx).elim ihg iha
    · exact ihb hx
  | app _ _ ihf iha => exact (List.mem_append.mp hx).elim ihf iha
  | unit | bool | bound => cases hx

theorem HasType.weaken (h : HasType Γ Δ t T) (Δ' : List Ty) : HasType Γ (Δ ++ Δ') t T := by
  induction h with
  | unit => exact .unit
  | bool => exact .bool
  | bound hi => exact .bound (by rw [List.getElem?_append_left (List.getElem?_eq_some_iff.mp hi).1, hi])
  | free hx => exact .free hx
  | abs _ ih => exact .abs ih
  | cond _ _ _ ihg iha ihb => exact .cond ihg iha ihb
  | app _ _ ihf iha => exact .app ihf iha

/-- A term without binders around it may take the place of the outermost bound variable. -/
theorem HasType.inst (hu : HasType Γ [] u S) (h : HasType Γ (Δ ++ [S]) t T) :
    HasType Γ Δ (t.inst [u] Δ.length) T := by
  induction t generalizing Δ T with
  | unit =>
    obtain ⟨⟩ := h
    exact .unit
  | bool p =>
    obtain ⟨⟩ := h
    exact .bool
  | bound i =>
    obtain ⟨⟩ | ⟨⟩ | hi := h
    rw [Nameless.inst]
    by_cases hlt : i < Δ.length
    · rw [if_pos hlt]
      exact .bound (by rwa [List.getElem?_append_left hlt] at hi)
    · have hlast : i = Δ.length := by
        have := (List.getElem?_eq_some_iff.mp hi).1
        rw [List.length_append, List.length_singleton] at this
        omega
      subst hlast
      rw [List.getElem?_concat_length] at hi
      obtain rfl := Option.some.inj hi
      rw [if_neg (Nat.lt_irrefl _), Nat.sub_self]
      exact hu.weaken Δ
  | free x =>
    obtain ⟨⟩ | ⟨⟩ | ⟨⟩ | hx := h
    exact .free hx
  | abs R body ih =>
    cases h with
    | abs hb => exact .abs (ih (Δ := R :: Δ) hb)
  | cond g a b ihg iha ihb =>
    cases h with
    | cond hg ha hb => exact .cond (ihg hg) (iha ha) (ihb hb)
  | app f a ihf iha =>
    cases h with
    | app hf ha => exact .app (ihf hf) (iha ha)

end Nameless

namespace Typing

/-- A name has the type of the nearest of its binders, and the type of the context when there is none. -/
theorem lookup_append (Δ Γ : Context) (x : String) :
    Bindings.lookup x (Δ ++ Γ) =
      match (Δ.map Prod.fst).idxOf? x with
      | some i => (Δ.map Prod.snd)[i]?
      | none => Bindings.lookup x Γ := by
  induction Δ with
  | nil => rfl
  | cons binding Δ ih =>
    obtain ⟨y, S⟩ := binding
    rw [List.cons_append, List.map_cons, Bindings.lookup]
    by_cases hy : y = x
    · subst hy
      rw [if_pos rfl, Term.idxOf?_cons_self]
      rfl
    · rw [if_neg hy, ih, Term.idxOf?_cons_of_ne hy]
      cases (Δ.map Prod.fst).idxOf? x with
      | none => rfl
      | some i => rfl

/-- **The names of bound variables play no part in typing.** -/
theorem hasType_iff_nameless {Δ Γ : Context} {t : Term} {T : Ty} :
    HasType (Δ ++ Γ) t T ↔
      Nameless.HasType (fun x => Bindings.lookup x Γ) (Δ.map Prod.snd) (t.nameless (Δ.map Prod.fst)) T := by
  induction t generalizing Δ T with
  | unit =>
    constructor
    · rintro ⟨⟩
      exact .unit
    · rintro ⟨⟩
      exact .unit
  | bool p =>
    constructor
    · rintro ⟨⟩
      exact .bool
    · rintro ⟨⟩
      exact .bool
  | var x =>
    have hx := lookup_append Δ Γ x
    rw [Term.nameless, Term.resolve]
    cases hi : (Δ.map Prod.fst).idxOf? x with
    | none =>
      rw [hi] at hx
      constructor
      · rintro (_ | _ | h)
        exact .free (hx.symm.trans h)
      · rintro (_ | _ | _ | h)
        exact .var (hx.trans h)
    | some i =>
      rw [hi] at hx
      constructor
      · rintro (_ | _ | h)
        exact .bound (hx.symm.trans h)
      · rintro (_ | _ | h)
        exact .var (hx.trans h)
  | abs x S body ih =>
    constructor
    · rintro (_ | _ | _ | hb)
      exact .abs ((ih (Δ := (x, S) :: Δ)).mp hb)
    · rintro (_ | _ | _ | _ | hb)
      exact .abs ((ih (Δ := (x, S) :: Δ)).mpr hb)
  | cond g a b ihg iha ihb =>
    constructor
    · rintro (_ | _ | _ | _ | ⟨hg, ha, hb⟩)
      exact .cond (ihg.mp hg) (iha.mp ha) (ihb.mp hb)
    · rintro (_ | _ | _ | _ | _ | ⟨hg, ha, hb⟩)
      exact .cond (ihg.mpr hg) (iha.mpr ha) (ihb.mpr hb)
  | app f a ihf iha =>
    constructor
    · rintro (_ | _ | _ | _ | _ | ⟨hf, ha⟩)
      exact .app (ihf.mp hf) (iha.mp ha)
    · rintro (_ | _ | _ | _ | _ | _ | ⟨hf, ha⟩)
      exact .app (ihf.mpr hf) (iha.mpr ha)

/-- A typed term has its free names bound by the context. -/
theorem isSome_lookup_of_hasType {Γ : Context} {t : Term} {T : Ty} {x : String} (h : HasType Γ t T)
    (hx : x ∈ t.freeVars) : (Bindings.lookup x Γ).isSome := by
  have hn := (hasType_iff_nameless (Δ := [])).mp h
  exact hn.isSome_of_mem_frees (Term.mem_frees_nameless.mpr ⟨hx, List.not_mem_nil⟩)

end Typing

end SimplyTyped
