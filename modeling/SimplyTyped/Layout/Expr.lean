/-!
# SimplyTyped.Layout.Expr — expressions and where they need parentheses

An expression is rendered for a position, and it is put in parentheses where that position binds more tightly than the
expression does.  A mark leaves the rendering as it is and puts a sentinel character on either side.
-/

namespace SimplyTyped.Layout

/-- Where an expression stands. -/
inductive Position where
  /-- The whole output, a lambda body, the codomain of an arrow. -/
  | top
  /-- The head of an application, the domain of an arrow. -/
  | function
  /-- An argument of an application. -/
  | argument
  deriving DecidableEq

/-- An expression.  Applications take one argument at a time; `call` is an application to no argument. -/
inductive Expr where
  | name (text : String)
  | signature (pattern type : Expr)
  | lambda (pattern body : Expr)
  | call (function : Expr)
  | app (function argument : Expr)
  | mark (expr : Expr)
  | arrow (domain codomain : Expr)
  deriving DecidableEq, Inhabited

/-- The sentinel before a marked expression. -/
def markStart : Char := '\x02'

/-- The sentinel after a marked expression. -/
def markEnd : Char := '\x03'

/-- A text in parentheses when they are needed. -/
def parenthesized (needed : Bool) (text : String) : String := if needed then "(" ++ text ++ ")" else text

namespace Expr

/-- A function applied to a list of arguments, from left to right. -/
def apply (function : Expr) : List Expr → Expr
  | [] => call function
  | arguments => arguments.foldl app function

/-- The text of an expression at a position.  Lambdas and arrows extend as far right as they can, so they stand bare at
the top only; an application stands bare but as an argument. -/
def render (position : Position) : Expr → String
  | name text => text
  | signature pattern type => "(" ++ pattern.render .top ++ " :: " ++ type.render .top ++ ")"
  | lambda pattern body =>
    parenthesized (position ≠ .top) ("\\" ++ pattern.render .argument ++ " -> " ++ body.render .top)
  | call function => parenthesized (position = .argument) (function.render .function)
  | app function argument =>
    parenthesized (position = .argument) (function.render .function ++ " " ++ argument.render .argument)
  | mark expr => markStart.toString ++ expr.render position ++ markEnd.toString
  | arrow domain codomain =>
    parenthesized (position ≠ .top) (domain.render .function ++ " -> " ++ codomain.render .top)

end Expr

end SimplyTyped.Layout
