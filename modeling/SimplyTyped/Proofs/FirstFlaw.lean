import SimplyTyped.Proofs.RecordFormat

/-!
# SimplyTyped.Proofs.FirstFlaw — which record a refusal blames

A record is at fault on its own level when its tag is not known, when it has contents that its constructor does not
take or not as many fields, or when one of its fields holds what it must not: no text where a name is due, or the
record of a term where a type is due or the other way round (`Record.Flawed`).  A field that is no record at all is
not its parent's fault but its own.

Reading looks at the shape of a record, then at its fields from left to right, and at the kind of a field only after
reading it.  So what a refusal blames is the record at fault that this walk comes to first: at each record on the way
all fields further left hold what they have to, and so do the fields of the blamed record before the one at fault
(`Record.FirstFlaw`).
-/

namespace SimplyTyped.Record

open Json (Same)

/-- What a field can have to hold. -/
inductive Kind where
  | identifier
  | type
  | term
  deriving DecidableEq

/-- A field as it is declared. -/
structure Slot where
  field : String
  kind : Kind
  deriving DecidableEq

/-- The fields of a constructor, in the order of their declaration. -/
def Tag.slots : Tag → List Slot
  | tyUnit | tyBool | tmUnit | tmTrue | tmFalse => []
  | tyFun => [⟨"domain", .type⟩, ⟨"codomain", .type⟩]
  | tmVar => [⟨"name", .identifier⟩]
  | tmFun => [⟨"param", .identifier⟩, ⟨"param_type", .type⟩, ⟨"body", .term⟩]
  | tmIf => [⟨"condition", .term⟩, ⟨"then_branch", .term⟩, ⟨"else_branch", .term⟩]
  | tmApp => [⟨"function", .term⟩, ⟨"argument", .term⟩]

/-- The values that contents give to the fields of a constructor: the contents themselves to a single one, null when
there are none, and the items of a list of the right length to several. -/
def valued (slots : List Slot) (contents : Option Json) : List (Slot × Json) :=
  match slots, contents with
  | [], _ => []
  | [slot], contents => [(slot, contents.getD .null)]
  | slots, some (.array vs) => if vs.length = slots.length then slots.zip vs else []
  | _, _ => []

/-- The fields of a record with a known tag. -/
def entries (r : Json) : List (Slot × Json) :=
  match tag? r with
  | some tag => valued tag.slots (r.field? "contents")
  | none => []

/-- The value is what such a field has to hold: a text, or the record of something of the kind. -/
def Kind.Holds : Kind → Json → Prop
  | identifier, v => ∃ x, v = .string x
  | type, v => ∃ ty, Same (strip v) (ofTy ty)
  | term, v => ∃ t, Same (strip v) (ofTerm t)

/-- The value is none that such a field may hold, and it has no fault of its own: not a text, or the record of
something of the other kind. -/
def Kind.Mistaken : Kind → Json → Prop
  | identifier, v => ∀ x, v ≠ .string x
  | type, v => ∃ t, Same (strip v) (ofTerm t)
  | term, v => ∃ ty, Same (strip v) (ofTy ty)

/-- What is wrong with a record that has a mistaken field. -/
def Slot.flaw : Slot → Flaw
  | ⟨field, .identifier⟩ => .identifierExpected field
  | ⟨field, .type⟩ => .typeExpected field
  | ⟨field, .term⟩ => .termExpected field

/-- What can be wrong with a record before its fields are looked at. -/
inductive Misshapen (r : Json) : Flaw → Prop
  | untagged : (∀ tag : Tag, r.field? "tag" ≠ some (.string tag.name)) → Misshapen r .untagged
  | contentsForbidden {tag : Tag} {v : Json} : r.field? "tag" = some (.string tag.name) → tag.slots = [] →
      r.field? "contents" = some v → Misshapen r .contentsForbidden
  | fieldCount {tag : Tag} : r.field? "tag" = some (.string tag.name) → 2 ≤ tag.slots.length →
      (∀ vs, r.field? "contents" = some (.array vs) → vs.length ≠ tag.slots.length) →
      Misshapen r (.fieldCount tag.slots.length)

/-- The fields of a record before the one at position `i` hold what they have to. -/
def HoldsBefore (r : Json) (i : Nat) : Prop := ∀ e ∈ (entries r).take i, e.1.kind.Holds e.2

/-- A record at fault on its own level. -/
inductive Flawed (r : Json) : Flaw → Prop
  | shape {flaw : Flaw} : Misshapen r flaw → Flawed r flaw
  | field {i : Nat} {slot : Slot} {v : Json} : (entries r)[i]? = some (slot, v) → HoldsBefore r i →
      slot.kind.Mistaken v → Flawed r slot.flaw

/-- The record at a path of fields of terms and types. -/
def recordAt? : Json → List Nat → Option Json
  | r, [] => some r
  | r, i :: p =>
    match (entries r)[i]? with
    | some (slot, v) => if slot.kind = .identifier then none else recordAt? v p
    | none => none

/-- The record at a path is at fault on its own level, and the walk gets to it: past all that is left of the path, in
each record on the way. -/
structure FirstFlaw (r : Json) (f : Fault) (p : List Nat) : Prop where
  reaches : recordAt? r p = some f.record
  flawed : Flawed f.record f.flaw
  passes : ∀ above i below node, p = above ++ i :: below → recordAt? r above = some node → HoldsBefore node i

variable {r v : Json} {f : Fault} {tag : Tag} {slot : Slot} {flaw : Flaw} {i : Nat} {p : List Nat}

theorem recordAt?_cons_eq_some_iff {q : Json} : recordAt? r (i :: p) = some q ↔
    ∃ slot v, (entries r)[i]? = some (slot, v) ∧ slot.kind ≠ .identifier ∧ recordAt? v p = some q := by
  rw [recordAt?]
  cases (entries r)[i]? with
  | none => simp
  | some entry =>
    obtain ⟨slot, v⟩ := entry
    by_cases hk : slot.kind = .identifier <;> simp [hk]

theorem firstFlaw_nil_iff : FirstFlaw r f [] ↔ f.record = r ∧ Flawed r f.flaw := by
  constructor
  · rintro ⟨hr, hf, -⟩
    obtain rfl := Option.some.inj hr
    exact ⟨rfl, hf⟩
  · rintro ⟨rfl, hf⟩
    exact ⟨rfl, hf, fun above i below node h => by simp at h⟩

/-- A flaw below a field is one of the field's record. -/
theorem firstFlaw_cons_iff : FirstFlaw r f (i :: p) ↔
    HoldsBefore r i ∧ ∃ slot v, (entries r)[i]? = some (slot, v) ∧ slot.kind ≠ .identifier ∧ FirstFlaw v f p := by
  constructor
  · rintro ⟨hr, hf, hp⟩
    obtain ⟨slot, v, hv, hk, hr⟩ := recordAt?_cons_eq_some_iff.mp hr
    refine ⟨hp [] i p r rfl rfl, slot, v, hv, hk, hr, hf, fun above j below node h hn => ?_⟩
    exact hp (i :: above) j below node (by rw [h, List.cons_append])
      (recordAt?_cons_eq_some_iff.mpr ⟨slot, v, hv, hk, hn⟩)
  · rintro ⟨hi, slot, v, hv, hk, hr, hf, hp⟩
    refine ⟨recordAt?_cons_eq_some_iff.mpr ⟨slot, v, hv, hk, hr⟩, hf, fun above j below node h hn => ?_⟩
    -- the record is `r` itself, or lies on the way from its field
    cases above with
    | nil =>
      obtain ⟨rfl, -⟩ := List.cons.inj h
      obtain rfl := Option.some.inj hn
      exact hi
    | cons k above =>
      rw [List.cons_append] at h
      obtain ⟨rfl, hp'⟩ := List.cons.inj h
      obtain ⟨slot', v', hv', -, hn⟩ := recordAt?_cons_eq_some_iff.mp hn
      obtain ⟨rfl, rfl⟩ := Prod.mk.inj (Option.some.inj (hv.symm.trans hv'))
      exact hp above j below node hp' hn

/-! ## One field -/

/-- What reading a field comes to when it fails: the field is mistaken, or it is a record that is refused itself. -/
def Fails (r : Json) (slot : Slot) (v : Json) (f : Fault) : Prop :=
  (slot.kind.Mistaken v ∧ f = ⟨slot.flaw, r⟩) ∨ (slot.kind ≠ .identifier ∧ decode v = .error f)

/-- The first of the fields that does not hold what it has to fails. -/
def FirstFails (r : Json) : List (Slot × Json) → Fault → Prop
  | [], _ => False
  | (slot, v) :: rest, f => Fails r slot v f ∨ slot.kind.Holds v ∧ FirstFails r rest f

/-- The result is that of reading a field. -/
structure Reads {α : Type} (r : Json) (slot : Slot) (v : Json) (x : Except Fault α) : Prop where
  ok_iff : (∃ a, x = .ok a) ↔ slot.kind.Holds v
  error_iff : ∀ f, x = .error f ↔ Fails r slot v f

theorem reads_identifier (r : Json) (field : String) (c : Option Json) :
    Reads r ⟨field, .identifier⟩ (c.getD .null) (identifier r field c) where
  ok_iff := by
    simp only [identifier_eq_ok_iff, Kind.Holds]
    cases c <;> simp
  error_iff f := by
    rw [identifier_eq_error_iff]
    cases c <;> simp [Fails, Kind.Mistaken, Slot.flaw]

theorem reads_type (r : Json) (field : String) (v : Json) :
    Reads r ⟨field, .type⟩ v (asType r field (decode v)) where
  ok_iff := by
    simp only [asType_eq_ok_iff, decode_eq_ok_iff]
    rfl
  error_iff f := by
    simp only [asType_eq_error_iff, decode_eq_ok_iff, Fails, Kind.Mistaken, Slot.flaw]
    simp [ofDatum, or_comm]

theorem reads_term (r : Json) (field : String) (v : Json) :
    Reads r ⟨field, .term⟩ v (asTerm r field (decode v)) where
  ok_iff := by
    simp only [asTerm_eq_ok_iff, decode_eq_ok_iff]
    rfl
  error_iff f := by
    simp only [asTerm_eq_error_iff, decode_eq_ok_iff, Fails, Kind.Mistaken, Slot.flaw]
    simp [ofDatum, or_comm]

/-- Fields are read one after the other. -/
theorem Reads.bind_eq_error_iff {α β : Type} {x : Except Fault α} {next : α → Except Fault β}
    {rest : List (Slot × Json)} (hx : Reads r slot v x) (hn : ∀ a, next a = .error f ↔ FirstFails r rest f) :
    (x >>= next) = .error f ↔ FirstFails r ((slot, v) :: rest) f := by
  rw [SimplyTyped.bind_eq_error_iff, hx.error_iff, FirstFails]
  simp only [hn, exists_and_right, hx.ok_iff]

theorem pure_eq_error_iff (u : Datum) : (pure u : Except Fault Datum) = .error f ↔ FirstFails r [] f := by
  simp [FirstFails, pure, Except.pure]

/-- There is one field that fails, and those before it hold what they have to. -/
theorem firstFails_iff {es : List (Slot × Json)} : FirstFails r es f ↔
    ∃ i slot v, es[i]? = some (slot, v) ∧ (∀ e ∈ es.take i, e.1.kind.Holds e.2) ∧ Fails r slot v f := by
  induction es with
  | nil => simp [FirstFails]
  | cons e es ih =>
    obtain ⟨slot, v⟩ := e
    rw [FirstFails, ih]
    constructor
    · rintro (h | ⟨hv, i, slot', v', hi, hb, h⟩)
      · exact ⟨0, slot, v, rfl, by simp, h⟩
      · refine ⟨i + 1, slot', v', hi, ?_, h⟩
        rw [List.take_succ_cons, List.forall_mem_cons]
        exact ⟨hv, hb⟩
    · rintro ⟨i, slot', v', hi, hb, h⟩
      cases i with
      | zero =>
        obtain ⟨rfl, rfl⟩ := Prod.mk.inj (Option.some.inj hi)
        exact .inl h
      | succ i =>
        rw [List.take_succ_cons, List.forall_mem_cons] at hb
        exact .inr ⟨hb.1, i, slot', v', hi, hb.2, h⟩

/-! ## One record -/

theorem misshapen_untagged_iff (ht : tag? r = none) : Misshapen r flaw ↔ flaw = .untagged := by
  have hno : ∀ tag : Tag, r.field? "tag" ≠ some (.string tag.name) := by
    intro tag h
    rw [tag?_eq_some_iff.mpr h] at ht
    cases ht
  constructor
  · rintro (_ | ⟨h, -, -⟩ | ⟨h, -, -⟩)
    · rfl
    · exact absurd h (hno _)
    · exact absurd h (hno _)
  · rintro rfl
    exact .untagged hno

theorem misshapen_tagged_iff (ht : tag? r = some tag) : Misshapen r flaw ↔
    (tag.slots = [] ∧ (∃ v, r.field? "contents" = some v) ∧ flaw = .contentsForbidden) ∨
      (2 ≤ tag.slots.length ∧ (∀ vs, r.field? "contents" = some (.array vs) → vs.length ≠ tag.slots.length) ∧
        flaw = .fieldCount tag.slots.length) := by
  have hu : ∀ {tag' : Tag}, r.field? "tag" = some (.string tag'.name) → tag' = tag := by
    intro tag' h
    exact Option.some.inj ((tag?_eq_some_iff.mpr h).symm.trans ht)
  constructor
  · rintro (h | ⟨h, hs, hc⟩ | ⟨h, hs, hc⟩)
    · exact absurd (tag?_eq_some_iff.mp ht) (h tag)
    · obtain rfl := hu h
      exact .inl ⟨hs, ⟨_, hc⟩, rfl⟩
    · obtain rfl := hu h
      exact .inr ⟨hs, hc, rfl⟩
  · rintro (⟨hs, ⟨v, hc⟩, rfl⟩ | ⟨hs, hc, rfl⟩)
    · exact .contentsForbidden (tag?_eq_some_iff.mp ht) hs hc
    · exact .fieldCount (tag?_eq_some_iff.mp ht) hs hc

/-- What a record is refused for, looked at one level deep: its shape, or the first of its fields that fails. -/
def Refuses (r : Json) (f : Fault) : Prop := (f.record = r ∧ Misshapen r f.flaw) ∨ FirstFails r (entries r) f

theorem entries_of_tag (ht : tag? r = some tag) : entries r = valued tag.slots (r.field? "contents") := by
  rw [entries, ht]

theorem refuses_untagged_iff (ht : tag? r = none) : Refuses r f ↔ f = ⟨.untagged, r⟩ := by
  obtain ⟨flaw, q⟩ := f
  rw [Refuses, misshapen_untagged_iff ht, entries, ht]
  simp [FirstFails, and_comm]

theorem constant_eq_error_iff_refuses {u : Datum} (ht : tag? r = some tag) (hs : tag.slots = []) :
    constant r u = .error f ↔ Refuses r f := by
  have hm : ∀ flaw, Misshapen r flaw ↔ (∃ v, r.field? "contents" = some v) ∧ flaw = .contentsForbidden := by
    intro flaw
    rw [misshapen_tagged_iff ht, hs]
    simp
  obtain ⟨flaw, q⟩ := f
  rw [constant_eq_error_iff, Refuses, hm, entries_of_tag ht, hs]
  simp [valued, FirstFails, and_comm, and_assoc]

section
variable {slots : List Slot} {vs : List Json} {contents : Option Json}

theorem valued_array (h2 : 2 ≤ slots.length) (hn : vs.length = slots.length) :
    valued slots (some (.array vs)) = slots.zip vs := by
  unfold valued
  split
  · simp at h2
  · simp at h2
  · next h =>
    obtain rfl := Json.array.inj (Option.some.inj h)
    exact if_pos hn
  · next h => exact absurd rfl (h vs)

theorem valued_of_count (h2 : 2 ≤ slots.length)
    (hc : ∀ vs, contents = some (.array vs) → vs.length ≠ slots.length) : valued slots contents = [] := by
  unfold valued
  split
  · rfl
  · simp at h2
  · next vs _ _ => exact if_neg (hc vs rfl)
  · rfl

end

/-- The fields of a record of the right shape decide. -/
theorem refuses_of_array {vs : List Json} (ht : tag? r = some tag) (hc : r.field? "contents" = some (.array vs))
    (h2 : 2 ≤ tag.slots.length) (hn : vs.length = tag.slots.length) :
    Refuses r f ↔ FirstFails r (tag.slots.zip vs) f := by
  have hm : ¬ Misshapen r f.flaw := by
    rw [misshapen_tagged_iff ht]
    rintro (⟨hs, -⟩ | ⟨-, hc', -⟩)
    · simp [hs] at h2
    · exact hc' vs hc hn
  rw [Refuses, entries_of_tag ht, hc, valued_array h2 hn]
  simp [hm]

/-- A single field is there whatever the contents are. -/
theorem refuses_of_single (ht : tag? r = some tag) (hs : tag.slots = [slot]) :
    Refuses r f ↔ FirstFails r [(slot, (r.field? "contents").getD .null)] f := by
  rw [Refuses, misshapen_tagged_iff ht, entries_of_tag ht, hs]
  simp [valued]

/-- A record of the wrong shape has no fields to look at. -/
theorem fieldCount_eq_error_iff_refuses (ht : tag? r = some tag) (h2 : 2 ≤ tag.slots.length)
    (hc : ∀ vs, r.field? "contents" = some (.array vs) → vs.length ≠ tag.slots.length) :
    Except.error ⟨.fieldCount tag.slots.length, r⟩ = (.error f : Except Fault Datum) ↔ Refuses r f := by
  have hm : ∀ flaw, Misshapen r flaw ↔ flaw = .fieldCount tag.slots.length := by
    intro flaw
    rw [misshapen_tagged_iff ht]
    constructor
    · rintro (⟨hs, -⟩ | ⟨-, -, h⟩)
      · simp [hs] at h2
      · exact h
    · exact fun h => .inr ⟨h2, hc, h⟩
  obtain ⟨flaw, q⟩ := f
  rw [Refuses, hm, entries_of_tag ht, valued_of_count h2 hc]
  simp [FirstFails, eq_comm, and_comm]

/-- One step of the walk. -/
theorem decode_eq_error_iff_refuses : decode r = .error f ↔ Refuses r f := by
  fun_cases decode r with
  | case1 ht => rw [refuses_untagged_iff ht, Except.error.injEq, eq_comm]
  | case2 ht | case3 ht | case4 ht | case5 ht | case6 ht => exact constant_eq_error_iff_refuses ht rfl
  | case7 ht =>
    rw [refuses_of_single ht rfl]
    exact (reads_identifier r "name" _).bind_eq_error_iff fun x => pure_eq_error_iff _
  | case8 ht d c hc =>
    rw [refuses_of_array ht hc (by decide) rfl]
    exact (reads_type r "domain" d).bind_eq_error_iff fun D =>
      (reads_type r "codomain" c).bind_eq_error_iff fun C => pure_eq_error_iff _
  | case10 ht x ty body hc =>
    rw [refuses_of_array ht hc (by decide) rfl]
    exact (reads_identifier r "param" (some x)).bind_eq_error_iff fun y =>
      (reads_type r "param_type" ty).bind_eq_error_iff fun S =>
        (reads_term r "body" body).bind_eq_error_iff fun b => pure_eq_error_iff _
  | case12 ht g a b hc =>
    rw [refuses_of_array ht hc (by decide) rfl]
    exact (reads_term r "condition" g).bind_eq_error_iff fun G =>
      (reads_term r "then_branch" a).bind_eq_error_iff fun A =>
        (reads_term r "else_branch" b).bind_eq_error_iff fun B => pure_eq_error_iff _
  | case14 ht f a hc =>
    rw [refuses_of_array ht hc (by decide) rfl]
    exact (reads_term r "function" f).bind_eq_error_iff fun F =>
      (reads_term r "argument" a).bind_eq_error_iff fun A => pure_eq_error_iff _
  | case9 ht hc | case15 ht hc =>
    refine fieldCount_eq_error_iff_refuses ht (by decide) fun vs hvs hn => ?_
    obtain ⟨d, c, rfl⟩ := List.length_eq_two.mp hn
    exact hc d c hvs
  | case11 ht hc | case13 ht hc =>
    refine fieldCount_eq_error_iff_refuses ht (by decide) fun vs hvs hn => ?_
    obtain ⟨x, y, z, rfl⟩ := List.length_eq_three.mp hn
    exact hc x y z hvs

/-- A record is refused for a fault of its own, or for that of a field which the walk comes to. -/
theorem refuses_iff : Refuses r f ↔ (f.record = r ∧ Flawed r f.flaw) ∨
    ∃ i slot v, (entries r)[i]? = some (slot, v) ∧ slot.kind ≠ .identifier ∧ HoldsBefore r i ∧
      decode v = .error f := by
  rw [Refuses, firstFails_iff]
  constructor
  · rintro (⟨hr, hm⟩ | ⟨i, slot, v, hi, hb, ⟨hm, rfl⟩ | ⟨hk, hd⟩⟩)
    · exact .inl ⟨hr, .shape hm⟩
    · exact .inl ⟨rfl, .field hi hb hm⟩
    · exact .inr ⟨i, slot, v, hi, hk, hb, hd⟩
  · rintro (⟨hr, hf⟩ | ⟨i, slot, v, hi, hk, hb, hd⟩)
    · obtain ⟨flaw, q⟩ := f
      obtain rfl : q = r := hr
      cases hf with
      | shape hm => exact .inl ⟨rfl, hm⟩
      | field hi hb hm => exact .inr ⟨_, _, _, hi, hb, .inl ⟨hm, rfl⟩⟩
    · exact .inr ⟨i, slot, v, hi, hb, .inr ⟨hk, hd⟩⟩

/-! ## The whole walk -/

theorem kind_of_single (hs : tag.slots = [slot]) : slot.kind = .identifier := by
  cases tag <;> simp [Tag.slots] at hs
  rw [← hs]

theorem mem_valued {slots : List Slot} {contents : Option Json} (h : (slot, v) ∈ valued slots contents) :
    slots = [slot] ∨ ∃ vs, contents = some (.array vs) ∧ v ∈ vs := by
  unfold valued at h
  split at h
  · cases h
  · obtain ⟨rfl, -⟩ := Prod.mk.inj (List.mem_singleton.mp h)
    exact .inl rfl
  · next vs _ _ =>
    split at h
    · exact .inr ⟨vs, rfl, (List.of_mem_zip h).2⟩
    · cases h
  · cases h

/-- A field that can be a record is smaller than the record. -/
theorem sizeOf_entry (hv : (entries r)[i]? = some (slot, v)) (hk : slot.kind ≠ .identifier) :
    sizeOf v < sizeOf r := by
  have hm := List.mem_of_getElem? hv
  rw [entries] at hm
  split at hm
  · obtain hs | ⟨vs, hc, hvs⟩ := mem_valued hm
    · exact absurd (kind_of_single hs) hk
    · have hlt := List.sizeOf_lt_of_mem hvs
      have hsize := Json.sizeOf_field? hc
      simp at hsize
      omega
  · cases hm

/-- **What is refused is refused for the record at fault that the walk comes to first.** -/
theorem decode_eq_error_iff : decode r = .error f ↔ ∃ p, FirstFlaw r f p := by
  constructor
  -- the record is found by induction on the size of the value, the refusal by induction on the path
  · intro h
    induction hn : sizeOf r using Nat.strong_induction_on generalizing r with
    | _ n ih =>
      obtain ⟨hr, hf⟩ | ⟨i, slot, v, hi, hk, hb, hd⟩ := refuses_iff.mp (decode_eq_error_iff_refuses.mp h)
      · exact ⟨[], firstFlaw_nil_iff.mpr ⟨hr, hf⟩⟩
      · obtain ⟨p, hp⟩ := ih (sizeOf v) (hn ▸ sizeOf_entry hi hk) hd rfl
        exact ⟨i :: p, firstFlaw_cons_iff.mpr ⟨hb, slot, v, hi, hk, hp⟩⟩
  · rintro ⟨p, h⟩
    refine decode_eq_error_iff_refuses.mpr (refuses_iff.mpr ?_)
    induction p generalizing r with
    | nil => exact .inl (firstFlaw_nil_iff.mp h)
    | cons i p ih =>
      obtain ⟨hb, slot, v, hi, hk, hp⟩ := firstFlaw_cons_iff.mp h
      exact .inr ⟨i, slot, v, hi, hk, hb, decode_eq_error_iff_refuses.mpr (refuses_iff.mpr (ih hp))⟩

/-- **A refusal blames the first record at fault.**  Reading a value as a record fails with a fault exactly when the
record of the fault is at fault on its own level in the way that the fault says, lies in the value at a path of fields
that are terms or types, and all that is looked at before it, left of the path and in the record itself, is well formed
and of the right kind.  The notice of the fault quotes that record. -/
theorem decode_blames_first_flaw (r : Json) (f : Fault) :
    (decode r = .error f ↔ ∃ p, FirstFlaw r f p) ∧ f.notice.subject = f.record.write :=
  ⟨decode_eq_error_iff, rfl⟩

/-- The parameter type is found to be a term before the body is looked at, and the function before the argument. -/
example :
    let function := tagged .tmFun (.array [.string "x", nullary .tmUnit, .null])
    decode (tagged .tmApp (.array [function, .int 0])) = .error ⟨.typeExpected "param_type", function⟩ := by
  cbv

end SimplyTyped.Record
