import SimplyTyped.Json
import SimplyTyped.Typing

/-!
# SimplyTyped.Record — terms, types and contexts as JSON records

A record is an object whose `tag` names the constructor and whose `contents` hold its fields: nothing for no field, the
field itself for one, a list in the order of declaration for more.  Further keys are ignored.  Reading a record checks
its shape before its fields, and the fields from left to right.
-/

namespace SimplyTyped

/-- What a record stands for. -/
inductive Datum where
  | term (t : Term)
  | type (ty : Ty)
  deriving DecidableEq

namespace Record

/-- What is wrong with a record. -/
inductive Flaw where
  | untagged
  | contentsForbidden
  | fieldCount (expected : Nat)
  | identifierExpected (field : String)
  | typeExpected (field : String)
  | termExpected (field : String)
  | bindingsExpected
  | bindingExpected
  | boundTypeExpected
  deriving DecidableEq

/-- A flaw and the record that has it. -/
structure Fault where
  flaw : Flaw
  record : Json

/-- The constructors that records name. -/
inductive Tag where
  | tyUnit | tyBool | tyFun | tmUnit | tmTrue | tmFalse | tmVar | tmFun | tmIf | tmApp
  deriving DecidableEq

/-- The spelling of a tag. -/
def Tag.name : Tag → String
  | tyUnit => "TyUnit"
  | tyBool => "TyBool"
  | tyFun => "TyFun"
  | tmUnit => "TmUnit"
  | tmTrue => "TmTrue"
  | tmFalse => "TmFalse"
  | tmVar => "TmVar"
  | tmFun => "TmFun"
  | tmIf => "TmIf"
  | tmApp => "TmApp"

/-- Every tag. -/
def Tag.all : List Tag := [tyUnit, tyBool, tyFun, tmUnit, tmTrue, tmFalse, tmVar, tmFun, tmIf, tmApp]

/-- The tag with a spelling. -/
def Tag.ofName? (name : String) : Option Tag := Tag.all.find? fun tag => tag.name = name

/-! ## Writing -/

/-- A record without fields. -/
def nullary (tag : Tag) : Json := .object [("tag", .string tag.name)]

/-- A record with contents. -/
def tagged (tag : Tag) (contents : Json) : Json := .object [("tag", .string tag.name), ("contents", contents)]

/-- The record of a type. -/
def ofTy : Ty → Json
  | .unit => nullary .tyUnit
  | .bool => nullary .tyBool
  | .arrow d c => tagged .tyFun (.array [ofTy d, ofTy c])

/-- The record of a term. -/
def ofTerm : Term → Json
  | .unit => nullary .tmUnit
  | .bool b => nullary (if b then .tmTrue else .tmFalse)
  | .var x => tagged .tmVar (.string x)
  | .abs x ty body => tagged .tmFun (.array [.string x, ofTy ty, ofTerm body])
  | .cond g a b => tagged .tmIf (.array [ofTerm g, ofTerm a, ofTerm b])
  | .app f a => tagged .tmApp (.array [ofTerm f, ofTerm a])

/-- The record of a term or type. -/
def ofDatum : Datum → Json
  | .term t => ofTerm t
  | .type ty => ofTy ty

/-- The record of a binding. -/
def ofBinding (binding : String × Ty) : Json := .array [.string binding.1, ofTy binding.2]

/-- The records of a list of bindings, in its order. -/
def ofContext (bindings : List (String × Ty)) : Json := .array (bindings.map ofBinding)

/-! ## Reading -/

/-- The tag of a record, when it has a known one. -/
def tag? (r : Json) : Option Tag :=
  match r.field? "tag" with
  | some (.string s) => Tag.ofName? s
  | _ => none

/-- The constructor of a record without fields. -/
def constant (r : Json) (v : Datum) : Except Fault Datum :=
  match r.field? "contents" with
  | some _ => .error ⟨.contentsForbidden, r⟩
  | none => .ok v

/-- A field that has to be an identifier. -/
def identifier (r : Json) (field : String) : Option Json → Except Fault String
  | some (.string s) => .ok s
  | _ => .error ⟨.identifierExpected field, r⟩

/-- A field that was read and has to be a type. -/
def asType (r : Json) (field : String) : Except Fault Datum → Except Fault Ty
  | .error e => .error e
  | .ok (.type ty) => .ok ty
  | .ok (.term _) => .error ⟨.typeExpected field, r⟩

/-- A field that was read and has to be a term. -/
def asTerm (r : Json) (field : String) : Except Fault Datum → Except Fault Term
  | .error e => .error e
  | .ok (.term t) => .ok t
  | .ok (.type _) => .error ⟨.termExpected field, r⟩

/-- The term or type of a record, or its first fault. -/
def decode (r : Json) : Except Fault Datum :=
  match tag? r with
  | none => .error ⟨.untagged, r⟩
  | some .tyUnit => constant r (.type .unit)
  | some .tyBool => constant r (.type .bool)
  | some .tmUnit => constant r (.term .unit)
  | some .tmTrue => constant r (.term (.bool true))
  | some .tmFalse => constant r (.term (.bool false))
  | some .tmVar => do
    let x ← identifier r "name" (r.field? "contents")
    return .term (.var x)
  | some .tyFun =>
    match _h : r.field? "contents" with
    | some (.array [d, c]) => do
      let domain ← asType r "domain" (decode d)
      let codomain ← asType r "codomain" (decode c)
      return .type (.arrow domain codomain)
    | _ => .error ⟨.fieldCount 2, r⟩
  | some .tmFun =>
    match _h : r.field? "contents" with
    | some (.array [x, ty, body]) => do
      let param ← identifier r "param" (some x)
      let paramType ← asType r "param_type" (decode ty)
      let body ← asTerm r "body" (decode body)
      return .term (.abs param paramType body)
    | _ => .error ⟨.fieldCount 3, r⟩
  | some .tmIf =>
    match _h : r.field? "contents" with
    | some (.array [g, a, b]) => do
      let guard ← asTerm r "condition" (decode g)
      let thenBranch ← asTerm r "then_branch" (decode a)
      let elseBranch ← asTerm r "else_branch" (decode b)
      return .term (.cond guard thenBranch elseBranch)
    | _ => .error ⟨.fieldCount 3, r⟩
  | some .tmApp =>
    match _h : r.field? "contents" with
    | some (.array [f, a]) => do
      let function ← asTerm r "function" (decode f)
      let argument ← asTerm r "argument" (decode a)
      return .term (.app function argument)
    | _ => .error ⟨.fieldCount 2, r⟩
termination_by sizeOf r
decreasing_by
  all_goals
    have smaller := Json.sizeOf_field? _h
    simp at smaller
    omega

/-! ## Reading what was written -/

theorem ofName?_name (tag : Tag) : Tag.ofName? tag.name = some tag := by cases tag <;> decide +kernel

theorem tag?_nullary (tag : Tag) : tag? (nullary tag) = some tag := by
  simp [tag?, nullary, Json.field?, Json.lookup, ofName?_name]

theorem tag?_tagged (tag : Tag) (contents : Json) : tag? (tagged tag contents) = some tag := by
  simp [tag?, tagged, Json.field?, Json.lookup, ofName?_name]

theorem contents_nullary (tag : Tag) : (nullary tag).field? "contents" = none := by
  simp [nullary, Json.field?, Json.lookup]

theorem contents_tagged (tag : Tag) (contents : Json) : (tagged tag contents).field? "contents" = some contents := by
  simp [tagged, Json.field?, Json.lookup]

theorem decode_ofTy (ty : Ty) : decode (ofTy ty) = .ok (.type ty) := by
  induction ty with
  | unit => rw [decode, ofTy, tag?_nullary]; simp [constant, contents_nullary]
  | bool => rw [decode, ofTy, tag?_nullary]; simp [constant, contents_nullary]
  | arrow d c ihd ihc =>
    rw [decode, ofTy, tag?_tagged]
    simp only
    split
    · next h =>
      simp only [contents_tagged, Option.some.injEq, Json.array.injEq, List.cons.injEq, and_true] at h
      obtain ⟨rfl, rfl⟩ := h
      rw [ihd, ihc]
      rfl
    · next h => exact absurd (contents_tagged _ _) (h _ _)

theorem decode_ofTerm (t : Term) : decode (ofTerm t) = .ok (.term t) := by
  induction t with
  | unit => rw [decode, ofTerm, tag?_nullary]; simp [constant, contents_nullary]
  | bool b => cases b <;> rw [decode, ofTerm, tag?_nullary] <;> simp [constant, contents_nullary]
  | var x =>
    rw [decode, ofTerm, tag?_tagged]
    simp only [contents_tagged]
    rfl
  | abs x ty body ih =>
    rw [decode, ofTerm, tag?_tagged]
    simp only
    split
    · next h =>
      simp only [contents_tagged, Option.some.injEq, Json.array.injEq, List.cons.injEq, and_true] at h
      obtain ⟨rfl, rfl, rfl⟩ := h
      rw [decode_ofTy, ih]
      rfl
    · next h => exact absurd (contents_tagged _ _) (h _ _ _)
  | cond g a b ihg iha ihb =>
    rw [decode, ofTerm, tag?_tagged]
    simp only
    split
    · next h =>
      simp only [contents_tagged, Option.some.injEq, Json.array.injEq, List.cons.injEq, and_true] at h
      obtain ⟨rfl, rfl, rfl⟩ := h
      rw [ihg, iha, ihb]
      rfl
    · next h => exact absurd (contents_tagged _ _) (h _ _ _)
  | app f a ihf iha =>
    rw [decode, ofTerm, tag?_tagged]
    simp only
    split
    · next h =>
      simp only [contents_tagged, Option.some.injEq, Json.array.injEq, List.cons.injEq, and_true] at h
      obtain ⟨rfl, rfl⟩ := h
      rw [ihf, iha]
      rfl
    · next h => exact absurd (contents_tagged _ _) (h _ _)

/-- A record that was written reads back. -/
theorem decode_ofDatum (v : Datum) : decode (ofDatum v) = .ok v := by
  cases v with
  | term t => exact decode_ofTerm t
  | type ty => exact decode_ofTy ty

/-! ## Contexts -/

/-- The binding of a record: a list of an identifier and the record of a type. -/
def decodeBinding (r : Json) : Except Fault (String × Ty) :=
  match r with
  | .array [.string x, ty] =>
    match decode ty with
    | .error e => .error e
    | .ok (.type ty) => .ok (x, ty)
    | .ok (.term _) => .error ⟨.boundTypeExpected, r⟩
  | _ => .error ⟨.bindingExpected, r⟩

/-- The bindings of a list of records. -/
def decodeBindings : List Json → Except Fault (List (String × Ty))
  | [] => .ok []
  | r :: rest => do
    let binding ← decodeBinding r
    let bindings ← decodeBindings rest
    return binding :: bindings

/-- The context of a list of binding records, in its order. -/
def decodeContext : Json → Except Fault Context
  | .array records => (decodeBindings records).map Bindings.ofList
  | r => .error ⟨.bindingsExpected, r⟩

end Record

end SimplyTyped
