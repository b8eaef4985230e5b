import SimplyTyped.Typing

/-!
# SimplyTyped.Typing.Complaint — a typing rule with the parts that break it

A complaint names a rule and, one for each role in the rule, the names and terms that break it.  Every typing fault is
a complaint with one part for each role; a complaint may also be made with other parts, and with too few of them it
cannot be worded.
-/

namespace SimplyTyped.Typing

/-- The rules that a term can break. -/
inductive Rule where
  | unbound
  | badGuard
  | branchMismatch
  | notApplicable
  | argMismatch
  deriving DecidableEq

/-- What the parts of a complaint are to the rule. -/
def Rule.roles : Rule → List String
  | unbound => ["name"]
  | badGuard => ["condition"]
  | branchMismatch => ["then_branch", "else_branch"]
  | notApplicable => ["function"]
  | argMismatch => ["function", "argument"]

/-- The wording of a complaint: before, between and after its parts. -/
def Rule.wordings : Rule → List String
  | unbound => ["variable '", "' is not bound in context"]
  | badGuard => ["condition '", "' is not of type Bool"]
  | branchMismatch => ["branches '", "' and '", "' do not have the same type"]
  | notApplicable => ["'", "' is not a function and cannot be applied"]
  | argMismatch => ["'", "' cannot be applied to argument '", "' of the wrong type"]

/-- A name or term that a complaint is about. -/
inductive Part where
  | name (x : String)
  | term (t : Term)
  deriving DecidableEq

/-- A rule and the parts that break it. -/
structure Complaint where
  rule : Rule
  parts : List Part
  deriving DecidableEq

/-- The complaint of a fault. -/
def Fault.complaint : Fault → Complaint
  | unbound x => ⟨.unbound, [.name x]⟩
  | badGuard g => ⟨.badGuard, [.term g]⟩
  | branchMismatch a b => ⟨.branchMismatch, [.term a, .term b]⟩
  | notApplicable f => ⟨.notApplicable, [.term f]⟩
  | argMismatch f a => ⟨.argMismatch, [.term f, .term a]⟩

end SimplyTyped.Typing
