import SimplyTyped.Json
import SimplyTyped.Number.Plain
import SimplyTyped.Text.Quoted
import SimplyTyped.Typing.Complaint

/-!
# SimplyTyped.FullForm — types, terms, contexts, complaints and data written out by their constructors

The full form names the constructor and every field, with names in quotes, so nothing is left out and nothing depends
on precedence.
-/

namespace SimplyTyped

/-- The word for the constructor of a type. -/
def Ty.constructorName : Ty → String
  | unit => "UnitType"
  | bool => "BoolType"
  | arrow _ _ => "FunctionType"

/-- The full form of a type. -/
def Ty.fullForm : Ty → String
  | unit => "UnitType()"
  | bool => "BoolType()"
  | arrow domain codomain =>
    "FunctionType(domain=" ++ domain.fullForm ++ ", codomain=" ++ codomain.fullForm ++ ")"

/-- The full form of a term. -/
def Term.fullForm : Term → String
  | unit => "UnitTerm()"
  | bool b => if b then "TrueTerm()" else "FalseTerm()"
  | var x => "Variable(name=" ++ Text.quoted x ++ ")"
  | abs x ty body =>
    "Abstraction(param=" ++ Text.quoted x ++ ", param_type=" ++ ty.fullForm ++ ", body=" ++ body.fullForm ++ ")"
  | cond g a b =>
    "Conditional(condition=" ++ g.fullForm ++ ", then_branch=" ++ a.fullForm ++ ", else_branch=" ++ b.fullForm ++ ")"
  | app f a => "Application(function=" ++ f.fullForm ++ ", argument=" ++ a.fullForm ++ ")"

/-- Bindings in full form, in their order, with a form for what is bound. -/
def Bindings.fullForm {α : Type} (form : α → String) (Γ : Bindings α) : String :=
  "Context([" ++ ", ".intercalate (List.map (fun b => "(" ++ Text.quoted b.1 ++ ", " ++ form b.2 ++ ")") Γ) ++ "])"

namespace Typing

/-- The full form of a part. -/
def Part.fullForm : Part → String
  | name x => Text.quoted x
  | term t => t.fullForm

/-- The word for breaking a rule. -/
def Rule.name : Rule → String
  | unbound => "UnboundVariable"
  | badGuard => "BadGuard"
  | branchMismatch => "BranchMismatch"
  | notApplicable => "NotApplicable"
  | argMismatch => "ArgMismatch"

/-- The full form of a complaint. -/
def Complaint.fullForm (c : Complaint) : String :=
  c.rule.name ++ "(" ++ ", ".intercalate (c.parts.map Part.fullForm) ++ ")"

end Typing

/-- A number in full form: its text, with small letters where it is no number or not finite. -/
def Binary64.fullForm : Binary64 → String
  | nan => "nan"
  | infinite negative => if negative then "-inf" else "inf"
  | x => x.text

namespace Json

mutual

/-- The full form of a JSON value. -/
def fullForm : Json → String
  | null => "None"
  | bool b => if b then "True" else "False"
  | int n => n.repr
  | float x => x.fullForm
  | string s => Text.quoted s
  | array vs => "[" ++ ", ".intercalate (fullForms vs) ++ "]"
  | object fields => "\x7b" ++ ", ".intercalate (fieldForms fields) ++ "\x7d"

/-- The full forms of the items of a list. -/
def fullForms : List Json → List String
  | [] => []
  | v :: rest => v.fullForm :: fullForms rest

/-- The fields of an object with their values in full form. -/
def fieldForms : List (String × Json) → List String
  | [] => []
  | (k, v) :: rest => (Text.quoted k ++ ": " ++ v.fullForm) :: fieldForms rest

end

end Json

/-- A supply of fresh names in full form. -/
def supplyFullForm (cursor : Int) : String := "FreshSupply(cursor=" ++ cursor.repr ++ ")"

end SimplyTyped
