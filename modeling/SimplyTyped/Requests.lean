import SimplyTyped.Evaluation

/-!
# SimplyTyped.Requests — one machine, asked again and again

A machine outlives what it is asked for: its count and its supply go on from one request to the next, also when a
request is given up at the bound.
-/

namespace SimplyTyped

/-- What a machine can be asked for. -/
inductive Request where
  /-- `t` with `u` for the free occurrences of `x`. -/
  | substitute (x : String) (u t : Term)
  | evaluate (t : Term)
  /-- An evaluation that also tells the steps counted so far. -/
  | run (t : Term)
  /-- Counts a step of a term. -/
  | step (t : Term)

/-- What a machine answers. -/
inductive Answer where
  | term (t : Term)
  | counted (t : Term) (steps : Nat)
  | nothing
  deriving DecidableEq

/-- The term of an answer, when there is one. -/
def Answer.term? : Answer → Option Term
  | term t => some t
  | counted t _ => some t
  | nothing => none

/-- The answer to a request, and the machine after it. -/
def Machine.serve (fuel : Nat) (m : Machine) : Request → Except Failure Answer × Machine
  | .substitute x u t =>
    let r := m.subst x u t
    (.ok (.term r.1), r.2)
  | .evaluate t =>
    let r := m.run fuel t
    ((r.1.toExcept m.limit).map .term, r.2)
  | .run t =>
    let r := m.run fuel t
    ((r.1.toExcept m.limit).map fun v => .counted v r.2.steps, r.2)
  | .step t =>
    let r := m.charge (.term t)
    (r.1.map fun _ => .nothing, r.2)

end SimplyTyped
