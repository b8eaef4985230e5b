import SimplyTyped.FullForm

/-!
# SimplyTyped.Tree — terms as indented trees

A node opens a line of its own at four blanks a level.  Fields that are no terms stand on that line; the subterms
follow one level deeper, and the bracket that closes them has a line of its own.
-/

namespace SimplyTyped.Term

/-- The blanks before a line, none at a negative level. -/
def indentation (level : Int) : String := String.ofList (List.replicate (4 * level.toNat) ' ')

/-- The subtrees of a node, parted by commas, between brackets. -/
def bracketed (level : Int) (subtrees : List String) : String :=
  "nodes=[\n" ++ ",\n".intercalate subtrees ++ "\n" ++ indentation level ++ "]"

/-- The tree of a term whose first line has an indentation level. -/
def treeAt (level : Int) (t : Term) : String :=
  indentation level ++
    match t with
    | unit => "UnitTerm()"
    | bool b => if b then "TrueTerm()" else "FalseTerm()"
    | var x => "Variable(name=" ++ Text.quoted x ++ ")"
    | abs x ty body =>
      "Abstraction(param=" ++ Text.quoted x ++ ", param_type=" ++ ty.fullForm ++ ", "
        ++ bracketed level [body.treeAt (level + 1)] ++ ")"
    | cond g a b =>
      "Conditional(" ++ bracketed level [g.treeAt (level + 1), a.treeAt (level + 1), b.treeAt (level + 1)] ++ ")"
    | app f a => "Application(" ++ bracketed level [f.treeAt (level + 1), a.treeAt (level + 1)] ++ ")"

/-- The tree of a term. -/
def tree (t : Term) : String := t.treeAt 0

end SimplyTyped.Term
