import Mathlib
import SimplyTyped.Failure

/-!
# SimplyTyped.Proofs.RecordFormat — which JSON values are records

Reading ignores every key but the two that a record is written with.  Without those further keys (`Record.strip`) a
value is accepted exactly when it is the record of something, and then it reads as that (`Record.decode_eq_ok_iff`).
Objects are compared as maps here, so the order of their keys plays no part (`Json.Same`).

All other values are refused with a fault, of which there are few kinds (`Record.flaws`), and the message of a fault
can be made whatever text the refused value has.
-/

namespace SimplyTyped

namespace Json

/-- The same value, where an object is the map that its fields make: the order of the keys plays no part. -/
inductive Same : Json → Json → Prop
  | null : Same null null
  | bool (p : Bool) : Same (bool p) (bool p)
  | int (n : Int) : Same (int n) (int n)
  | float (x : Binary64) : Same (float x) (float x)
  | string (s : String) : Same (string s) (string s)
  | array {vs ws : List Json} : List.Forall₂ Same vs ws → Same (array vs) (array ws)
  | object {fs gs : List (String × Json)} :
      (∀ key, Option.Rel Same (lookup key fs) (lookup key gs)) → Same (object fs) (object gs)

end Json

namespace Record

open Json (Same lookup)

/-- The keys that a record is written with. -/
def keys : List String := ["tag", "contents"]

mutual

/-- A JSON value without the keys that no record is written with, at every depth. -/
def strip : Json → Json
  | .object fields => .object (stripFields fields)
  | .array items => .array (stripItems items)
  | .null => .null
  | .bool p => .bool p
  | .int n => .int n
  | .float x => .float x
  | .string s => .string s

/-- The items of an array, each without those keys. -/
def stripItems : List Json → List Json
  | [] => []
  | v :: rest => strip v :: stripItems rest

/-- The fields of an object that have one of the keys, their values without further ones. -/
def stripFields : List (String × Json) → List (String × Json)
  | [] => []
  | (key, v) :: rest => if key ∈ keys then (key, strip v) :: stripFields rest else stripFields rest

end

variable {r w : Json} {v : Datum} {tag : Tag} {key : String} {fields : List (String × Json)}

theorem lookup_stripFields (h : key ∈ keys) (fields : List (String × Json)) :
    lookup key (stripFields fields) = (lookup key fields).map strip := by
  induction fields with
  | nil => rfl
  | cons field rest ih =>
    obtain ⟨k, v⟩ := field
    rw [stripFields, lookup]
    by_cases hk : k = key
    · subst hk
      rw [if_pos h, if_pos rfl, lookup, if_pos rfl]
      rfl
    · rw [if_neg hk, ← ih]
      by_cases hm : k ∈ keys
      · rw [if_pos hm, lookup, if_neg hk]
      · rw [if_neg hm]

theorem lookup_stripFields_of_notMem (h : key ∉ keys) (fields : List (String × Json)) :
    lookup key (stripFields fields) = none := by
  induction fields with
  | nil => rfl
  | cons field rest ih =>
    obtain ⟨k, v⟩ := field
    rw [stripFields]
    by_cases hm : k ∈ keys
    · have hk : k ≠ key := fun hk => h (hk ▸ hm)
      rw [if_pos hm, lookup, if_neg hk, ih]
    · rw [if_neg hm, ih]

/-! ## What a stripped value can be -/

theorem same_string_iff {s : String} : Same (strip r) (.string s) ↔ r = .string s := by
  constructor
  · intro h
    cases r with
    | string s' => cases h; rfl
    | null | bool | int | float | array | object => cases h
  · rintro rfl
    exact .string s

theorem same_array_iff {ws : List Json} :
    Same (strip r) (.array ws) ↔ ∃ vs, r = .array vs ∧ List.Forall₂ (fun v w => Same (strip v) w) vs ws := by
  have hmap : ∀ vs : List Json, stripItems vs = vs.map strip := by
    intro vs
    induction vs with
    | nil => rfl
    | cons v rest ih => rw [stripItems, ih, List.map_cons]
  constructor
  · intro h
    cases r with
    | array vs =>
      cases h with
      | array h =>
        rw [hmap, List.forall₂_map_left_iff] at h
        exact ⟨vs, rfl, h⟩
    | null | bool | int | float | string | object => cases h
  · rintro ⟨vs, rfl, h⟩
    rw [strip, hmap]
    exact .array (List.forall₂_map_left_iff.mpr h)

theorem rel_map_iff {α β γ : Type} {R : γ → β → Prop} {f : α → γ} {x : Option α} {y : Option β} :
    Option.Rel R (x.map f) y ↔ Option.Rel (fun a b => R (f a) b) x y := by
  cases x <;> cases y <;> constructor <;> rintro (_ | _) <;> constructor <;> assumption

theorem ofName?_eq_some_iff {name : String} : Tag.ofName? name = some tag ↔ name = tag.name := by
  constructor
  · intro h
    simpa [eq_comm] using List.find?_some h
  · rintro rfl
    exact ofName?_name tag

theorem tag?_eq_some_iff : tag? r = some tag ↔ r.field? "tag" = some (.string tag.name) := by
  rw [tag?]
  split
  · next s hs => simp [hs, ofName?_eq_some_iff]
  · next hs =>
    constructor
    · rintro ⟨⟩
    · exact fun h => absurd h (hs _)

/-- Only the two keys are compared, and the values of the tags are texts. -/
theorem same_record_iff {gs : List (String × Json)} (ht : lookup "tag" gs = some (.string tag.name))
    (hg : ∀ key, key ∉ keys → lookup key gs = none) :
    Same (strip r) (.object gs) ↔
      tag? r = some tag ∧
        Option.Rel (fun v w => Same (strip v) w) (r.field? "contents") (lookup "contents" gs) := by
  rw [tag?_eq_some_iff]
  constructor
  · intro h
    cases r with
    | object fs =>
      cases h with
      | object h =>
        have hc := h "contents"
        have hs := h "tag"
        rw [lookup_stripFields (by simp [keys]), rel_map_iff] at hs hc
        refine ⟨?_, hc⟩
        rw [ht] at hs
        show lookup "tag" fs = _
        generalize lookup "tag" fs = x at hs
        cases hs with
        | some hs => rw [same_string_iff.mp hs]
    | null | bool | int | float | string | array => cases h
  · rintro ⟨hs, hc⟩
    cases r with
    | object fs =>
      refine .object fun key => ?_
      by_cases hk : key ∈ keys
      · rw [lookup_stripFields hk, rel_map_iff]
        obtain rfl | rfl : key = "tag" ∨ key = "contents" := by simpa [keys] using hk
        · rw [ht, show lookup "tag" fs = _ from hs]
          exact .some (same_string_iff.mpr rfl)
        · exact hc
      · rw [lookup_stripFields_of_notMem hk, hg key hk]
        exact .none
    | null | bool | int | float | string | array => cases hs

theorem same_nullary_iff : Same (strip r) (nullary tag) ↔ tag? r = some tag ∧ r.field? "contents" = none := by
  have hg : ∀ key, key ∉ keys → lookup key [("tag", Json.string tag.name)] = none := by
    intro key hk
    rw [lookup, if_neg fun h => hk (by simp [keys, ← h]), lookup]
  rw [nullary, same_record_iff rfl hg, show lookup "contents" [("tag", Json.string tag.name)] = none from rfl]
  cases r.field? "contents" <;> simp

theorem same_tagged_iff :
    Same (strip r) (tagged tag w) ↔
      tag? r = some tag ∧ ∃ v, r.field? "contents" = some v ∧ Same (strip v) w := by
  have hg : ∀ key, key ∉ keys → lookup key [("tag", Json.string tag.name), ("contents", w)] = none := by
    intro key hk
    rw [lookup, if_neg fun h => hk (by simp [keys, ← h]), lookup, if_neg fun h => hk (by simp [keys, ← h]), lookup]
  rw [tagged, same_record_iff rfl hg,
    show lookup "contents" [("tag", Json.string tag.name), ("contents", w)] = some w from rfl]
  cases r.field? "contents" <;> simp

/-- A record whose contents are a list has the fields of that list, one by one. -/
theorem same_tagged_array_iff {ws : List Json} :
    Same (strip r) (tagged tag (.array ws)) ↔
      tag? r = some tag ∧ ∃ vs, r.field? "contents" = some (.array vs) ∧
        List.Forall₂ (fun v w => Same (strip v) w) vs ws := by
  rw [same_tagged_iff]
  constructor
  · rintro ⟨ht, v, hv, h⟩
    obtain ⟨vs, rfl, hvs⟩ := same_array_iff.mp h
    exact ⟨ht, vs, hv, hvs⟩
  · rintro ⟨ht, vs, hv, h⟩
    exact ⟨ht, _, hv, same_array_iff.mpr ⟨vs, rfl, h⟩⟩

/-! ## What is accepted -/

variable {field : String}

theorem constant_eq_ok_iff {u : Datum} : constant r u = .ok v ↔ r.field? "contents" = none ∧ u = v := by
  rw [constant]
  cases r.field? "contents" <;> simp

theorem identifier_eq_ok_iff {c : Option Json} {x : String} :
    identifier r field c = .ok x ↔ c = some (.string x) := by
  unfold identifier
  split
  · simp
  · next h =>
    constructor
    · rintro ⟨⟩
    · exact fun hc => absurd hc (h x)

theorem asType_eq_ok_iff {d : Except Fault Datum} {ty : Ty} : asType r field d = .ok ty ↔ d = .ok (.type ty) := by
  rcases d with e | t | S <;> simp [asType]

theorem asTerm_eq_ok_iff {d : Except Fault Datum} {t : Term} : asTerm r field d = .ok t ↔ d = .ok (.term t) := by
  rcases d with e | s | S <;> simp [asTerm]

/-- What is accepted is, without its further keys, the record of what it reads as. -/
theorem same_of_decode (h : decode r = .ok v) : Same (strip r) (ofDatum v) := by
  fun_induction decode r generalizing v with
  | case1 | case9 | case11 | case13 | case15 => cases h
  | case2 r ht | case3 r ht | case4 r ht | case5 r ht | case6 r ht =>
    obtain ⟨hc, rfl⟩ := constant_eq_ok_iff.mp h
    exact same_nullary_iff.mpr ⟨ht, hc⟩
  | case7 r ht =>
    obtain ⟨x, hx, hv⟩ := bind_eq_ok_iff.mp h
    obtain rfl := Except.ok.inj hv
    exact same_tagged_iff.mpr ⟨ht, _, identifier_eq_ok_iff.mp hx, .string x⟩
  | case8 r ht d c hc ihd ihc =>
    obtain ⟨D, hD, h⟩ := bind_eq_ok_iff.mp h
    obtain ⟨C, hC, hv⟩ := bind_eq_ok_iff.mp h
    obtain rfl := Except.ok.inj hv
    have hd := ihd (asType_eq_ok_iff.mp hD)
    have hc' := ihc (asType_eq_ok_iff.mp hC)
    exact same_tagged_array_iff.mpr ⟨ht, _, hc, .cons hd (.cons hc' .nil)⟩
  | case10 r ht x ty body hc ihty ihbody =>
    obtain ⟨y, hy, h⟩ := bind_eq_ok_iff.mp h
    obtain ⟨S, hS, h⟩ := bind_eq_ok_iff.mp h
    obtain ⟨b, hb, hv⟩ := bind_eq_ok_iff.mp h
    obtain rfl := Except.ok.inj hv
    obtain rfl := Option.some.inj (identifier_eq_ok_iff.mp hy)
    have hty := ihty (asType_eq_ok_iff.mp hS)
    have hbody := ihbody (asTerm_eq_ok_iff.mp hb)
    exact same_tagged_array_iff.mpr ⟨ht, _, hc, .cons (.string y) (.cons hty (.cons hbody .nil))⟩
  | case12 r ht g a b hc ihg iha ihb =>
    obtain ⟨G, hG, h⟩ := bind_eq_ok_iff.mp h
    obtain ⟨A, hA, h⟩ := bind_eq_ok_iff.mp h
    obtain ⟨B, hB, hv⟩ := bind_eq_ok_iff.mp h
    obtain rfl := Except.ok.inj hv
    have hg := ihg (asTerm_eq_ok_iff.mp hG)
    have ha := iha (asTerm_eq_ok_iff.mp hA)
    have hb := ihb (asTerm_eq_ok_iff.mp hB)
    exact same_tagged_array_iff.mpr ⟨ht, _, hc, .cons hg (.cons ha (.cons hb .nil))⟩
  | case14 r ht f a hc ihf iha =>
    obtain ⟨F, hF, h⟩ := bind_eq_ok_iff.mp h
    obtain ⟨A, hA, hv⟩ := bind_eq_ok_iff.mp h
    obtain rfl := Except.ok.inj hv
    have hf := ihf (asTerm_eq_ok_iff.mp hF)
    have ha := iha (asTerm_eq_ok_iff.mp hA)
    exact same_tagged_array_iff.mpr ⟨ht, _, hc, .cons hf (.cons ha .nil)⟩

theorem decode_of_same_ofTy {ty : Ty} (h : Same (strip r) (ofTy ty)) : decode r = .ok (.type ty) := by
  induction ty generalizing r with
  | unit | bool =>
    obtain ⟨ht, hc⟩ := same_nullary_iff.mp h
    rw [decode, ht]
    exact constant_eq_ok_iff.mpr ⟨hc, rfl⟩
  | arrow d c ihd ihc =>
    obtain ⟨ht, vs, hvs, h⟩ := same_tagged_array_iff.mp h
    obtain _ | ⟨hd, _ | ⟨hc, _ | _⟩⟩ := h
    rw [decode, ht]
    simp only
    split
    · next h =>
      obtain ⟨rfl, rfl⟩ : _ ∧ _ := by simpa [hvs] using h
      rw [ihd hd, ihc hc]
      rfl
    · next h => exact absurd hvs (h _ _)

theorem decode_of_same_ofTerm {t : Term} (h : Same (strip r) (ofTerm t)) : decode r = .ok (.term t) := by
  induction t generalizing r with
  | unit =>
    obtain ⟨ht, hc⟩ := same_nullary_iff.mp h
    rw [decode, ht]
    exact constant_eq_ok_iff.mpr ⟨hc, rfl⟩
  | bool p =>
    obtain ⟨ht, hc⟩ := same_nullary_iff.mp h
    cases p <;> rw [decode, ht] <;> exact constant_eq_ok_iff.mpr ⟨hc, rfl⟩
  | var x =>
    obtain ⟨ht, v, hv, h⟩ := same_tagged_iff.mp h
    obtain rfl := same_string_iff.mp h
    rw [decode, ht, hv]
    rfl
  | abs x ty body ih =>
    obtain ⟨ht, vs, hvs, h⟩ := same_tagged_array_iff.mp h
    obtain _ | ⟨hx, _ | ⟨hty, _ | ⟨hbody, _ | _⟩⟩⟩ := h
    rw [decode, ht]
    simp only
    split
    · next h =>
      obtain ⟨rfl, rfl, rfl⟩ : _ ∧ _ ∧ _ := by simpa [hvs] using h
      rw [same_string_iff.mp hx, decode_of_same_ofTy hty, ih hbody]
      rfl
    · next h => exact absurd hvs (h _ _ _)
  | cond g a b ihg iha ihb =>
    obtain ⟨ht, vs, hvs, h⟩ := same_tagged_array_iff.mp h
    obtain _ | ⟨hg, _ | ⟨ha, _ | ⟨hb, _ | _⟩⟩⟩ := h
    rw [decode, ht]
    simp only
    split
    · next h =>
      obtain ⟨rfl, rfl, rfl⟩ : _ ∧ _ ∧ _ := by simpa [hvs] using h
      rw [ihg hg, iha ha, ihb hb]
      rfl
    · next h => exact absurd hvs (h _ _ _)
  | app f a ihf iha =>
    obtain ⟨ht, vs, hvs, h⟩ := same_tagged_array_iff.mp h
    obtain _ | ⟨hf, _ | ⟨ha, _ | _⟩⟩ := h
    rw [decode, ht]
    simp only
    split
    · next h =>
      obtain ⟨rfl, rfl⟩ : _ ∧ _ := by simpa [hvs] using h
      rw [ihf hf, iha ha]
      rfl
    · next h => exact absurd hvs (h _ _)

/-- **Reading accepts exactly the records**, up to further keys and the order of keys. -/
theorem decode_eq_ok_iff : decode r = .ok v ↔ Same (strip r) (ofDatum v) := by
  constructor
  · exact same_of_decode
  · intro h
    cases v with
    | term t => exact decode_of_same_ofTerm h
    | type ty => exact decode_of_same_ofTy h

/-! ## What is refused -/

/-- All that can be wrong with a value that is read as a record. -/
def flaws : List Flaw :=
  [.untagged, .contentsForbidden, .fieldCount 2, .fieldCount 3, .identifierExpected "name",
    .identifierExpected "param", .typeExpected "domain", .typeExpected "codomain", .typeExpected "param_type",
    .termExpected "body", .termExpected "condition", .termExpected "then_branch", .termExpected "else_branch",
    .termExpected "function", .termExpected "argument"]

theorem constant_eq_error_iff {u : Datum} {f : Fault} :
    constant r u = .error f ↔ (∃ c, r.field? "contents" = some c) ∧ f = ⟨.contentsForbidden, r⟩ := by
  rw [constant]
  cases r.field? "contents" <;> simp [eq_comm]

theorem identifier_eq_error_iff {c : Option Json} {f : Fault} :
    identifier r field c = .error f ↔ (∀ x, c ≠ some (.string x)) ∧ f = ⟨.identifierExpected field, r⟩ := by
  unfold identifier
  split
  · simp
  · next h =>
    have hne : ∀ x, c ≠ some (.string x) := fun x hx => h x hx
    simp [eq_comm, hne]

theorem asType_eq_error_iff {d : Except Fault Datum} {f : Fault} :
    asType r field d = .error f ↔ d = .error f ∨ ∃ t, d = .ok (.term t) ∧ f = ⟨.typeExpected field, r⟩ := by
  rcases d with e | t | S <;> simp [asType, eq_comm]

theorem asTerm_eq_error_iff {d : Except Fault Datum} {f : Fault} :
    asTerm r field d = .error f ↔ d = .error f ∨ ∃ S, d = .ok (.type S) ∧ f = ⟨.termExpected field, r⟩ := by
  rcases d with e | t | S <;> simp [asTerm, eq_comm]

theorem flaw_mem_of_asType {d : Except Fault Datum} {f : Fault} (hfield : .typeExpected field ∈ flaws)
    (hd : d = .error f → f.flaw ∈ flaws) (h : asType r field d = .error f) : f.flaw ∈ flaws := by
  obtain h | ⟨t, -, rfl⟩ := asType_eq_error_iff.mp h
  · exact hd h
  · exact hfield

theorem flaw_mem_of_asTerm {d : Except Fault Datum} {f : Fault} (hfield : .termExpected field ∈ flaws)
    (hd : d = .error f → f.flaw ∈ flaws) (h : asTerm r field d = .error f) : f.flaw ∈ flaws := by
  obtain h | ⟨S, -, rfl⟩ := asTerm_eq_error_iff.mp h
  · exact hd h
  · exact hfield

/-- A refusal has one of these flaws, in whatever part of the value it is. -/
theorem flaw_mem_flaws {f : Fault} (h : decode r = .error f) : f.flaw ∈ flaws := by
  fun_induction decode r with
  | case1 | case9 | case11 | case13 | case15 =>
    obtain rfl := Except.error.inj h
    simp [flaws]
  | case2 | case3 | case4 | case5 | case6 =>
    obtain ⟨-, rfl⟩ := constant_eq_error_iff.mp h
    simp [flaws]
  | case7 =>
    obtain h | ⟨x, -, ⟨⟩⟩ := bind_eq_error_iff.mp h
    obtain ⟨-, rfl⟩ := identifier_eq_error_iff.mp h
    simp [flaws]
  | case8 r ht d c hc ihd ihc =>
    obtain h | ⟨D, -, h⟩ := bind_eq_error_iff.mp h
    · exact flaw_mem_of_asType (by simp [flaws]) ihd h
    obtain h | ⟨C, -, ⟨⟩⟩ := bind_eq_error_iff.mp h
    exact flaw_mem_of_asType (by simp [flaws]) ihc h
  | case10 r ht x ty body hc ihty ihbody =>
    obtain h | ⟨y, -, h⟩ := bind_eq_error_iff.mp h
    · obtain ⟨-, rfl⟩ := identifier_eq_error_iff.mp h
      simp [flaws]
    obtain h | ⟨S, -, h⟩ := bind_eq_error_iff.mp h
    · exact flaw_mem_of_asType (by simp [flaws]) ihty h
    obtain h | ⟨b, -, ⟨⟩⟩ := bind_eq_error_iff.mp h
    exact flaw_mem_of_asTerm (by simp [flaws]) ihbody h
  | case12 r ht g a b hc ihg iha ihb =>
    obtain h | ⟨G, -, h⟩ := bind_eq_error_iff.mp h
    · exact flaw_mem_of_asTerm (by simp [flaws]) ihg h
    obtain h | ⟨A, -, h⟩ := bind_eq_error_iff.mp h
    · exact flaw_mem_of_asTerm (by simp [flaws]) iha h
    obtain h | ⟨B, -, ⟨⟩⟩ := bind_eq_error_iff.mp h
    exact flaw_mem_of_asTerm (by simp [flaws]) ihb h
  | case14 r ht f a hc ihf iha =>
    obtain h | ⟨F, -, h⟩ := bind_eq_error_iff.mp h
    · exact flaw_mem_of_asTerm (by simp [flaws]) ihf h
    obtain h | ⟨A, -, ⟨⟩⟩ := bind_eq_error_iff.mp h
    exact flaw_mem_of_asTerm (by simp [flaws]) iha h

theorem no_braces_of_mem_flaws {flaw : Flaw} (h : flaw ∈ flaws) :
    Template.openingBrace ∉ flaw.message.toList ∧ Template.closingBrace ∉ flaw.message.toList := by
  revert flaw
  decide +kernel

/-- The template of the message about a fault. -/
def Fault.template (f : Fault) : String := "'\x7b\x7d'" ++ f.flaw.message

/-- **Reading accepts exactly what writing produces.**  A JSON value reads as a term or type exactly when, without
further keys and whatever the order of the others, it is the record of that; what was written reads back.  All other
values are refused with a fault, and its message is filled in, in every style, whatever the text of the refused
record. -/
theorem decode_exact (r : Json) :
    (∀ v, decode r = .ok v ↔ Same (strip r) (ofDatum v)) ∧
    (∀ v, decode (ofDatum v) = .ok v) ∧
    ((∃ f, decode r = .error f ∧ ∀ style, ∃ n,
        Notice.ofTemplate style f.template [f.record.write] 0 (-1) false false = .ok n ∧
          Notice.Alike style n f.notice) ↔
      ∀ v, ¬ Same (strip r) (ofDatum v)) := by
  refine ⟨fun v => decode_eq_ok_iff, decode_ofDatum, ?_⟩
  constructor
  · rintro ⟨f, hf, -⟩ v hv
    rw [decode_eq_ok_iff.mpr hv] at hf
    cases hf
  · intro h
    cases hd : decode r with
    | ok v => exact absurd (decode_eq_ok_iff.mp hd) (h v)
    | error f =>
      obtain ⟨ho, hc⟩ := no_braces_of_mem_flaws (flaw_mem_flaws hd)
      exact ⟨f, rfl, fun style => Notice.ofTemplate_quoting ho hc style f.record.write⟩

end Record

end SimplyTyped
