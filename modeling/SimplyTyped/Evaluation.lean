import SimplyTyped.Failure
import SimplyTyped.Reduction
import SimplyTyped.Tree

/-!
# SimplyTyped.Evaluation — reduction and typing as operations that answer or fail

Terms are checked and reduced here with failures in place of verdicts.  Where a term or a type may be given, the kind
that an operation is not for is refused, and a type reduces to itself without a step.
-/

namespace SimplyTyped

/-- The term that a verdict holds, or the failure it stands for. -/
def Verdict.toExcept (limit : Option Int) : Verdict → Except Failure Term
  | value t => .ok t
  | exceeded t => .error (.stepLimit t (limit.getD 0))
  | outOfFuel => .error .outOfFuel

namespace Machine

/-- Counts one step of a term, and fails when that passes the bound.  A type cannot be told as the term that passed
it. -/
def charge (v : Datum) (m : Machine) : Except Failure Unit × Machine :=
  (if m.tick.isSpent then
      match v with
      | .term t => .error (.stepLimit t (m.limit.getD 0))
      | .type ty => .error (.mishap (.termExpected ty))
    else .ok (), m.tick)

/-- Reduces a term, or a type to itself. -/
def evaluate (fuel : Nat) (v : Datum) (m : Machine) : Except Failure Datum × Machine :=
  match v with
  | .type ty => (.ok (.type ty), m)
  | .term t =>
    let r := m.run fuel t
    ((r.1.toExcept m.limit).map .term, r.2)

end Machine

/-- The value of a term and the steps to it. -/
def evaluate (fuel : Nat) (limit : Option Int) (t : Term) : Except Failure (Term × Nat) :=
  let r := (Machine.start limit).run fuel t
  (r.1.toExcept limit).map fun v => (v, r.2.steps)

/-- The type of a closed term. -/
def typeOf (t : Term) : Except Failure Ty :=
  match Typing.infer [] t with
  | .ok ty => .ok ty
  | .error e => .error (.typing e none)

/-- The record of a term in which the record of a type has taken the place of the free occurrences of a name.  A binder
asks for the free names of what comes below it, and a type cannot tell them; only the binder of the name itself hides
what is below. -/
def Record.withTy (x : String) (ty : Ty) (t : Term) : Except Failure Json :=
  match t with
  | .unit => .ok (ofTerm .unit)
  | .bool b => .ok (ofTerm (.bool b))
  | .var y => .ok (if y = x then ofTy ty else ofTerm (.var y))
  | .abs y _ _ => if y = x then .ok (ofTerm t) else .error (.mishap (.lacks ty "free_vars"))
  | .cond g a b => do
    let guard ← withTy x ty g
    let thenBranch ← withTy x ty a
    let elseBranch ← withTy x ty b
    return tagged .tmIf (.array [guard, thenBranch, elseBranch])
  | .app f a => do
    let function ← withTy x ty f
    let argument ← withTy x ty a
    return tagged .tmApp (.array [function, argument])

namespace Datum

/-- The term, when it is one. -/
def toTerm : Datum → Except Failure Term
  | term t => .ok t
  | type ty => .error (.mishap (.termExpected ty))

/-- The type, when it is one. -/
def toTy : Datum → Except Failure Ty
  | type ty => .ok ty
  | term t => .error (.mishap (.typeExpected t))

/-- The type of a term under a context. -/
def typeIn (Γ : Context) (v : Datum) : Except Failure Ty :=
  match v with
  | term t => (Typing.infer Γ t).mapError fun e => .typing e none
  | type ty => .error (.mishap (.termExpected ty))

/-- A term with a name changed. -/
def rename (old new : String) : Datum → Except Failure Term
  | term t => .ok (t.rename old new)
  | type ty => .error (.mishap (.lacks ty "alpha_convert"))

/-- The tree of a term. -/
def treeAt (level : Int) : Datum → Except Failure String
  | term t => .ok (t.treeAt level)
  | type ty => .error (.mishap (.lacks ty "display"))

/-- The children of a term. -/
def children : Datum → Except Failure (List Term)
  | term t => .ok t.children
  | type ty => .error (.mishap (.lacks ty "nodes"))

/-- The record of a term with something in place of the free occurrences of a name, and the cursor behind the names
drawn for that. -/
def substitute (v : Datum) (x : String) (u : Datum) (cursor : Int) : Except Failure (Json × Int) :=
  match v, u with
  | type ty, _ => .error (.mishap (.lacks ty "sub"))
  | term t, term u =>
    let r := Term.subst x u t cursor
    .ok (Record.ofTerm r.1, r.2)
  | term t, type ty => (Record.withTy x ty t).map fun r => (r, cursor)

/-- The full form. -/
def fullForm : Datum → String
  | term t => t.fullForm
  | type ty => ty.fullForm

end Datum

namespace Record

/-- A name on its own is a field of records and has no record. -/
def ofName (name : String) : Except Failure Json := .error (.mishap (.noRecord name))

/-- The term or type that a text holds. -/
def ofText (text : String) : Except Failure Datum :=
  match Json.read text with
  | .error fault => .error (.notJson text fault)
  | .ok r => (decode r).mapError .record

/-- The term that a line holds. -/
def termOfLine (line : String) : Except Failure Term :=
  match ofText line with
  | .error e => .error e
  | .ok (.term t) => .ok t
  | .ok (.type _) => .error (.typeGiven line)

/-- The text of a term or type: its record on one line. -/
def toText (v : Datum) : String := (ofDatum v).write

end Record

end SimplyTyped
