/-!
# SimplyTyped.Ty — simple types

`Ty` is the type of the unit value, the type of the truth values, or a function type.
-/

namespace SimplyTyped

/-- A simple type. -/
inductive Ty where
  | unit
  | bool
  | arrow (domain codomain : Ty)
  deriving DecidableEq, Inhabited

end SimplyTyped
