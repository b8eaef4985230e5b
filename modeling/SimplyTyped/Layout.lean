import SimplyTyped.Layout.Expr
import SimplyTyped.Term
import SimplyTyped.Text.Slice

/-!
# SimplyTyped.Layout — terms and types as readable text, and where their parts are in it

Functions print as `\x -> body`, or as `\(x :: T) -> body` with annotations; a conditional prints as a call of `ite`
with three arguments.  To find a part of a term it is marked, the term is rendered, and the first pair of marks in the
text gives the span.
-/

namespace SimplyTyped

open Layout (Expr)

/-- Two offsets in a text, from the first character of a part to after the last. -/
abbrev Span := Int × Int

/-- The expression of a type. -/
def Ty.toExpr : Ty → Expr
  | unit => .name "()"
  | bool => .name "Bool"
  | arrow domain codomain => .arrow domain.toExpr codomain.toExpr

/-- The text of a type. -/
def Ty.layout (ty : Ty) : String := ty.toExpr.render .top

namespace Term

/-- An expression, marked when asked for. -/
def markedIf (mark : Bool) (e : Expr) : Expr := if mark then .mark e else e

/-- The binder of a lambda. -/
def pattern (annotate : Bool) (x : String) (ty : Ty) : Expr :=
  if annotate then .signature (.name x) ty.toExpr else .name x

/-- The paths that go through child `i`, as paths from there. -/
def throughChild (i : Nat) (marks : List Path) : List Path :=
  marks.filterMap fun
    | j :: p => if j = i then some p else none
    | [] => none

theorem mem_throughChild {i : Nat} {p : Path} {marks : List Path} : p ∈ throughChild i marks ↔ i :: p ∈ marks := by
  rw [throughChild, List.mem_filterMap]
  constructor
  · rintro ⟨q, hq, h⟩
    cases q with
    | nil => simp at h
    | cons j q =>
      simp only [Option.ite_none_right_eq_some, Option.some.injEq] at h
      obtain ⟨rfl, rfl⟩ := h
      exact hq
  · intro h
    exact ⟨i :: p, h, by simp⟩

/-- The expression of a term, with the subterms at the marked paths in marks. -/
def toExpr (annotate : Bool) (marks : List Path) (t : Term) : Expr :=
  markedIf (marks.contains [])
    (match t with
      | unit => .name "()"
      | bool b => .name (if b then "True" else "False")
      | var x => .name x
      | abs x ty body => .lambda (pattern annotate x ty) (body.toExpr annotate (throughChild 0 marks))
      | cond g a b =>
        .apply (.name "ite")
          [g.toExpr annotate (throughChild 0 marks), a.toExpr annotate (throughChild 1 marks),
            b.toExpr annotate (throughChild 2 marks)]
      | app f a => .app (f.toExpr annotate (throughChild 0 marks)) (a.toExpr annotate (throughChild 1 marks)))

/-- The text of a term; with annotations every binder shows its type. -/
def layout (annotate : Bool) (t : Term) : String := (t.toExpr annotate []).render .top

/-- The span between the first mark and the end mark that follows it, in the text without marks.  Without an end mark
the span ends before the text. -/
def markedSpan? (text : List Char) : Option Span :=
  match Text.find? [Layout.markStart] text with
  | none => none
  | some start =>
    match Text.find? [Layout.markEnd] (text.drop start) with
    | none => some (start, -2)
    | some length => some (start, start + length - 1)

/-- The span of the first subterm at a marked path. -/
def firstSpan (annotate : Bool) (marks : List Path) (t : Term) : Option Span :=
  markedSpan? ((t.toExpr annotate marks).render .top).toList

/-- The span of the subterm at a path. -/
def spanAt (annotate : Bool) (path : Path) (t : Term) : Option Span := t.firstSpan annotate [path]

/-- The part of a term's text that a span covers. -/
def excerpt (annotate : Bool) (span : Span) (t : Term) : String :=
  String.ofList (Text.slice (t.layout annotate).toList span.1 span.2)

end Term

end SimplyTyped
