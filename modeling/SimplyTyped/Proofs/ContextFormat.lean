import SimplyTyped.Proofs.RecordFormat

/-!
# SimplyTyped.Proofs.ContextFormat — which JSON values are contexts

A context is written as the list of its bindings, the most recent one first, and a binding as the list of its name and
the record of its type (`Record.Binds`).  Reading takes exactly such lists and keeps their order and all of their
bindings, so the first pair with a name is the one that a lookup of the name finds (`Record.lookup_eq_some_iff`), and
writing the context gives the list again but for further keys in the records (`Record.same_ofContext_iff`).  Everything
else is refused.
-/

namespace SimplyTyped.Record

open Json (Same)

/-- A list of a name and a value that is read as a type. -/
def Binds (v : Json) (binding : String × Ty) : Prop :=
  ∃ w, v = .array [.string binding.1, w] ∧ decode w = .ok (.type binding.2)

/-- A list of such pairs. -/
def IsContext (r : Json) : Prop := ∃ vs, r = .array vs ∧ ∀ v ∈ vs, ∃ binding, Binds v binding

/-- The first pair with the name has `w` beside it. -/
def FirstPair (x : String) (vs : List Json) (w : Json) : Prop :=
  ∃ before after, vs = before ++ .array [.string x, w] :: after ∧ ∀ u ∈ before, ∀ w', u ≠ .array [.string x, w']

variable {r v w : Json} {vs : List Json} {binding : String × Ty} {Γ : Context} {x : String} {ty : Ty} {f : Fault}

/-! ## What is accepted -/

theorem decodeBinding_eq_ok_iff : decodeBinding v = .ok binding ↔ Binds v binding := by
  constructor
  · intro h
    unfold decodeBinding at h
    split at h
    · next x w =>
      split at h
      · cases h
      · next ty hw =>
        obtain rfl := Except.ok.inj h
        exact ⟨w, rfl, hw⟩
      · cases h
    · cases h
  · rintro ⟨w, rfl, hw⟩
    rw [decodeBinding, hw]

theorem decodeBindings_eq_ok_iff {bindings : List (String × Ty)} :
    decodeBindings vs = .ok bindings ↔ List.Forall₂ Binds vs bindings := by
  induction vs generalizing bindings with
  | nil => simp [decodeBindings, eq_comm]
  | cons v vs ih =>
    rw [decodeBindings, List.forall₂_cons_left_iff]
    constructor
    · intro h
      obtain ⟨b, hb, h⟩ := bind_eq_ok_iff.mp h
      obtain ⟨bs, hbs, h⟩ := bind_eq_ok_iff.mp h
      obtain rfl := Except.ok.inj h
      exact ⟨b, bs, decodeBinding_eq_ok_iff.mp hb, ih.mp hbs, rfl⟩
    · rintro ⟨b, bs, hb, hbs, rfl⟩
      exact bind_eq_ok_iff.mpr ⟨b, decodeBinding_eq_ok_iff.mpr hb, bind_eq_ok_iff.mpr ⟨bs, ih.mpr hbs, rfl⟩⟩

/-- The bindings are those of the list, in its order. -/
theorem decodeContext_eq_ok_iff : decodeContext r = .ok Γ ↔ ∃ vs, r = .array vs ∧ List.Forall₂ Binds vs Γ := by
  constructor
  · intro h
    unfold decodeContext at h
    split at h
    · next vs =>
      refine ⟨vs, rfl, decodeBindings_eq_ok_iff.mp ?_⟩
      cases hd : decodeBindings vs with
      | error e =>
        rw [hd] at h
        cases h
      | ok bindings =>
        rw [hd] at h
        obtain rfl : Bindings.ofList bindings = Γ := Except.ok.inj h
        rw [Bindings.ofList_eq]
    · cases h
  · rintro ⟨vs, rfl, h⟩
    rw [decodeContext, decodeBindings_eq_ok_iff.mpr h]
    exact congrArg Except.ok (Bindings.ofList_eq Γ)

theorem exists_forall₂_binds_iff : (∃ Γ : Context, List.Forall₂ Binds vs Γ) ↔ ∀ v ∈ vs, ∃ binding, Binds v binding := by
  induction vs with
  | nil => simp
  | cons v vs ih =>
    rw [List.forall_mem_cons, ← ih]
    simp only [List.forall₂_cons_left_iff]
    constructor
    · rintro ⟨_, b, bs, hb, hbs, -⟩
      exact ⟨⟨b, hb⟩, bs, hbs⟩
    · rintro ⟨⟨b, hb⟩, bs, hbs⟩
      exact ⟨_, b, bs, hb, hbs, rfl⟩

theorem exists_decodeContext_iff : (∃ Γ, decodeContext r = .ok Γ) ↔ IsContext r := by
  simp only [decodeContext_eq_ok_iff, IsContext, ← exists_forall₂_binds_iff]
  rw [exists_comm]
  simp only [exists_and_left]

theorem same_ofBinding_iff : Same (strip v) (ofBinding binding) ↔ Binds v binding := by
  rw [ofBinding, same_array_iff, Binds]
  constructor
  · rintro ⟨ws, rfl, _ | ⟨hx, _ | ⟨hw, _ | _⟩⟩⟩
    exact ⟨_, by rw [same_string_iff.mp hx], decode_eq_ok_iff.mpr hw⟩
  · rintro ⟨w, rfl, hw⟩
    exact ⟨_, rfl, .cons (same_string_iff.mpr rfl) (.cons (decode_eq_ok_iff.mp hw) .nil)⟩

/-- A value is read as a context when, without further keys, it is what the context is written as. -/
theorem same_ofContext_iff : Same (strip r) (ofContext Γ) ↔ decodeContext r = .ok Γ := by
  rw [ofContext, same_array_iff, decodeContext_eq_ok_iff]
  simp only [List.forall₂_map_right_iff, same_ofBinding_iff]

/-- A context that was written reads back. -/
theorem decodeContext_ofContext (Γ : Context) : decodeContext (ofContext Γ) = .ok Γ := by
  refine decodeContext_eq_ok_iff.mpr ⟨_, rfl, ?_⟩
  rw [List.forall₂_map_left_iff, List.forall₂_same]
  exact fun binding _ => ⟨ofTy binding.2, rfl, decode_ofTy binding.2⟩

/-! ## The first pair with a name -/

theorem firstPair_cons_iff : FirstPair x (v :: vs) w ↔
    v = .array [.string x, w] ∨ (∀ w', v ≠ .array [.string x, w']) ∧ FirstPair x vs w := by
  constructor
  · rintro ⟨before, after, h, hb⟩
    cases before with
    | nil => exact .inl (List.cons.inj h).1
    | cons u before =>
      obtain ⟨rfl, rfl⟩ := List.cons.inj h
      rw [List.forall_mem_cons] at hb
      exact .inr ⟨hb.1, before, after, rfl, hb.2⟩
  · rintro (rfl | ⟨hv, before, after, rfl, hb⟩)
    · exact ⟨[], vs, rfl, by simp⟩
    · exact ⟨v :: before, after, rfl, List.forall_mem_cons.mpr ⟨hv, hb⟩⟩

/-- A lookup finds the type in the first pair with the name. -/
theorem lookup_eq_some_iff (h : List.Forall₂ Binds vs Γ) :
    Bindings.lookup x Γ = some ty ↔ ∃ w, FirstPair x vs w ∧ decode w = .ok (.type ty) := by
  induction h with
  | nil => simp [Bindings.lookup, FirstPair]
  | @cons v binding vs Γ hv _ ih =>
    obtain ⟨y, S⟩ := binding
    obtain ⟨w, rfl, hw⟩ := hv
    simp only [firstPair_cons_iff]
    rw [Bindings.lookup]
    by_cases hy : y = x
    · subst hy
      rw [if_pos rfl]
      constructor
      · intro hS
        obtain rfl := Option.some.inj hS
        exact ⟨w, .inl rfl, hw⟩
      · rintro ⟨w', he | ⟨hne, -⟩, hw'⟩
        · obtain rfl : w = w' := by simpa using he
          rw [hw] at hw'
          simpa using hw'
        · exact absurd rfl (hne w)
    · rw [if_neg hy, ih]
      simp [hy]

theorem exists_type_of_firstPair (h : List.Forall₂ Binds vs Γ) (hw : FirstPair x vs w) :
    ∃ ty, decode w = .ok (.type ty) := by
  obtain ⟨before, after, rfl, -⟩ := hw
  obtain ⟨⟨y, ty⟩, w', he, hd⟩ := exists_forall₂_binds_iff.mp ⟨Γ, h⟩ (.array [.string x, w]) (by simp)
  obtain ⟨-, rfl⟩ : x = y ∧ w = w' := by simpa using he
  exact ⟨ty, hd⟩

/-- A lookup finds nothing when there is no pair with the name. -/
theorem lookup_eq_none_iff (h : List.Forall₂ Binds vs Γ) :
    Bindings.lookup x Γ = none ↔ ∀ w, ¬ FirstPair x vs w := by
  rw [Option.eq_none_iff_forall_ne_some]
  constructor
  · intro hn w hw
    obtain ⟨ty, hd⟩ := exists_type_of_firstPair h hw
    exact hn ty ((lookup_eq_some_iff h).mpr ⟨w, hw, hd⟩)
  · intro hn ty hs
    obtain ⟨w, hw, -⟩ := (lookup_eq_some_iff h).mp hs
    exact hn w hw

/-! ## What is refused -/

/-- All that can be wrong with a value that is read as a context. -/
def contextFlaws : List Flaw := .bindingsExpected :: .bindingExpected :: .boundTypeExpected :: flaws

theorem flaw_mem_of_decodeBinding (h : decodeBinding v = .error f) : f.flaw ∈ contextFlaws := by
  unfold decodeBinding at h
  split at h
  · split at h
    · next hd =>
      obtain rfl := Except.error.inj h
      simp [contextFlaws, flaw_mem_flaws hd]
    · cases h
    · obtain rfl := Except.error.inj h
      simp [contextFlaws]
  · obtain rfl := Except.error.inj h
    simp [contextFlaws]

theorem flaw_mem_of_decodeBindings (h : decodeBindings vs = .error f) : f.flaw ∈ contextFlaws := by
  induction vs with
  | nil => cases h
  | cons v vs ih =>
    obtain h | ⟨b, -, h⟩ := bind_eq_error_iff.mp h
    · exact flaw_mem_of_decodeBinding h
    · obtain h | ⟨bs, -, ⟨⟩⟩ := bind_eq_error_iff.mp h
      exact ih h

theorem flaw_mem_contextFlaws (h : decodeContext r = .error f) : f.flaw ∈ contextFlaws := by
  unfold decodeContext at h
  split at h
  · next vs =>
    cases hd : decodeBindings vs with
    | error e =>
      rw [hd] at h
      obtain rfl := Except.error.inj h
      exact flaw_mem_of_decodeBindings hd
    | ok bindings =>
      rw [hd] at h
      cases h
  · obtain rfl := Except.error.inj h
    simp [contextFlaws]

theorem no_braces_of_mem_contextFlaws {flaw : Flaw} (h : flaw ∈ contextFlaws) :
    Template.openingBrace ∉ flaw.message.toList ∧ Template.closingBrace ∉ flaw.message.toList := by
  simp only [contextFlaws, List.mem_cons] at h
  obtain rfl | rfl | rfl | h := h
  · decide +kernel
  · decide +kernel
  · decide +kernel
  · exact no_braces_of_mem_flaws h

/-- **Reading accepts exactly the written contexts and keeps order and duplicates.**  A JSON value reads as a context
exactly when it is a list of pairs of a name and a value that is read as a type; the context has the bindings of the
pairs, one by one, and is written as that value but for further keys of the records.  Looking up a name finds the type
in the first pair with the name, and nothing when there is none.  All other values are refused with a fault, and its
message is filled in, in every style, whatever the text of the refused value.  A context that was written reads back
as itself, so lookups and types under it are what they were. -/
theorem decodeContext_exact (r : Json) :
    (∀ Γ, decodeContext r = .ok Γ ↔ ∃ vs, r = .array vs ∧ List.Forall₂ Binds vs Γ) ∧
    ((∃ Γ, decodeContext r = .ok Γ) ↔ IsContext r) ∧
    (∀ Γ, decodeContext r = .ok Γ ↔ Same (strip r) (ofContext Γ)) ∧
    (∀ Γ vs, decodeContext r = .ok Γ → r = .array vs → ∀ x,
      (∀ ty, Bindings.lookup x Γ = some ty ↔ ∃ w, FirstPair x vs w ∧ decode w = .ok (.type ty)) ∧
      (Bindings.lookup x Γ = none ↔ ∀ w, ¬ FirstPair x vs w)) ∧
    ((∃ f, decodeContext r = .error f ∧ ∀ style, ∃ n,
        Notice.ofTemplate style f.template [f.record.write] 0 (-1) false false = .ok n ∧
          Notice.Alike style n f.notice) ↔ ¬ IsContext r) ∧
    ∀ Γ : Context, ∃ Δ, decodeContext (ofContext Γ) = .ok Δ ∧ Δ = Γ ∧
      (∀ x, Bindings.lookup x Δ = Bindings.lookup x Γ) ∧ ∀ t, Typing.infer Δ t = Typing.infer Γ t := by
  refine ⟨fun Γ => decodeContext_eq_ok_iff, exists_decodeContext_iff, fun Γ => same_ofContext_iff.symm,
    fun Γ vs h hr x => ?_, ?_, fun Γ => ?_⟩
  · obtain ⟨vs', hr', h⟩ := decodeContext_eq_ok_iff.mp h
    obtain rfl := Json.array.inj (hr.symm.trans hr')
    exact ⟨fun ty => lookup_eq_some_iff h, lookup_eq_none_iff h⟩
  · rw [← exists_decodeContext_iff]
    constructor
    · rintro ⟨f, hf, -⟩ ⟨Γ, hΓ⟩
      rw [hf] at hΓ
      cases hΓ
    · intro hn
      cases hd : decodeContext r with
      | ok Γ => exact absurd ⟨Γ, hd⟩ hn
      | error f =>
        obtain ⟨ho, hc⟩ := no_braces_of_mem_contextFlaws (flaw_mem_contextFlaws hd)
        exact ⟨f, rfl, fun style => Notice.ofTemplate_quoting ho hc style f.record.write⟩
  · exact ⟨Γ, decodeContext_ofContext Γ, rfl, fun _ => rfl, fun _ => rfl⟩

/-- The name `x` is bound twice, and the record of its first type has a further key. -/
theorem decodeContext_exact_of_hidden_binding :
    let noted := Json.object [("note", .null), ("tag", .string "TyBool")]
    let vs := [.array [.string "x", noted], ofBinding ("y", .unit), ofBinding ("x", .unit)]
    let Γ : Context := [("x", .bool), ("y", .unit), ("x", .unit)]
    decodeContext (.array vs) = .ok Γ ∧ Same (strip (.array vs)) (ofContext Γ) ∧
      (Bindings.lookup "x" Γ = some .bool ↔ ∃ w, FirstPair "x" vs w ∧ decode w = .ok (.type .bool)) ∧
      (Bindings.lookup "z" Γ = none ↔ ∀ w, ¬ FirstPair "z" vs w) := by
  intro noted vs Γ
  have hok : decodeContext (.array vs) = .ok Γ := by cbv
  obtain ⟨-, -, hsame, hlookup, -, -⟩ := decodeContext_exact (.array vs)
  exact ⟨hok, (hsame Γ).mp hok, (hlookup Γ vs hok rfl "x").1 .bool, (hlookup Γ vs hok rfl "z").2⟩

end SimplyTyped.Record
