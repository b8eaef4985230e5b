import Mathlib
import SimplyTyped.Layout

/-!
# SimplyTyped.Proofs.Rendering — the text of a term, put together from the texts of its parts

The text of a node is what leads it, and the texts of its children with blanks between them, in parentheses or not.
From this a text is cut at a subterm: what stands before it, the subterm as it is rendered where it stands, and what
stands after it.  What stands around a subterm does not depend on it (`text_replaceAt`).  The equation for a node holds
with marks too (`marked_eq`).
-/

namespace SimplyTyped

open Layout (Position Expr markStart markEnd)

theorem intercalate_append_cons {α : Type} (sep ys : List α) (xs zs : List (List α)) :
    sep.intercalate (xs ++ ys :: zs) = xs.flatMap (· ++ sep) ++ ys ++ zs.flatMap (sep ++ ·) := by
  induction xs with
  | nil =>
    induction zs generalizing ys with
    | nil => simp [List.intercalate]
    | cons z zs ih =>
      have h := ih z
      simp only [List.nil_append, List.flatMap_nil] at h
      rw [List.nil_append, List.intercalate_cons_cons, h]
      simp
  | cons x xs ih =>
    cases xs with
    | nil =>
      simp only [List.nil_append] at ih
      rw [List.singleton_append, List.intercalate_cons_cons, ih]
      simp
    | cons x' xs =>
      rw [List.cons_append, List.cons_append, List.intercalate_cons_cons, ← List.cons_append, ih]
      simp

theorem mapIdx_of_getElem? {α β : Type} {f : Nat → α → β} {xs : List α} {i : Nat} {a : α} (h : xs[i]? = some a) :
    xs.mapIdx f = (xs.take i).mapIdx f ++ f i a :: (xs.drop (i + 1)).mapIdx fun j => f (j + (i + 1)) := by
  obtain ⟨hi, rfl⟩ := List.getElem?_eq_some_iff.mp h
  conv_lhs => rw [← List.take_append_drop i xs, List.drop_eq_getElem_cons hi]
  rw [List.mapIdx_append, List.mapIdx_cons, List.length_take, Nat.min_eq_left hi.le]
  simp only [Nat.zero_add, Nat.add_assoc, Nat.add_comm 1]

namespace Term

/-- Whether a node that stands at a position is put in parentheses. -/
def needsParens (position : Position) : Term → Bool
  | abs _ _ _ => decide (position ≠ .top)
  | cond _ _ _ | app _ _ => decide (position = .argument)
  | _ => false

/-- What stands before the children of a node. -/
def lead (annotate : Bool) : Term → List Char
  | unit => "()".toList
  | bool p => (if p then "True" else "False").toList
  | var x => x.toList
  | abs x ty _ => '\\' :: (((pattern annotate x ty).render .argument).toList ++ " -> ".toList)
  | cond _ _ _ => "ite ".toList
  | app _ _ => []

/-- Where a child of a node stands. -/
def childPosition : Term → Nat → Position
  | abs _ _ _, _ => .top
  | app _ _, i => if i = 0 then .function else .argument
  | _, _ => .argument

/-- A text between two others when they are needed. -/
def between (needed : Bool) (before after text : List Char) : List Char :=
  if needed then before ++ text ++ after else text

@[simp]
theorem between_false (before after text : List Char) : between false before after text = text := rfl

@[simp]
theorem between_true (before after text : List Char) : between true before after text = before ++ text ++ after := rfl

/-- The text of a term at a position, with the subterms at the marked paths in marks. -/
def marked (annotate : Bool) (position : Position) (marks : List Path) (t : Term) : List Char :=
  ((t.toExpr annotate marks).render position).toList

/-- The text of a term at a position. -/
def text (annotate : Bool) (position : Position) (t : Term) : List Char := t.marked annotate position []

variable {annotate : Bool} {position : Position} {marks : List Path} {t s : Term}

theorem layout_toList (annotate : Bool) (t : Term) : (t.layout annotate).toList = t.text annotate .top := rfl

theorem toList_parenthesized (needed : Bool) (s : String) :
    (Layout.parenthesized needed s).toList = between needed ['('] [')'] s.toList := by
  cases needed <;> simp [Layout.parenthesized]

theorem toList_render_markedIf (mark : Bool) (e : Expr) (position : Position) :
    ((markedIf mark e).render position).toList = between mark [markStart] [markEnd] (e.render position).toList := by
  cases mark <;> simp [markedIf, Expr.render]

theorem marked_eq (annotate : Bool) (position : Position) (marks : List Path) (t : Term) :
    t.marked annotate position marks =
      between (marks.contains []) [markStart] [markEnd]
        (between (t.needsParens position) ['('] [')']
          (t.lead annotate ++ [' '].intercalate
            (t.children.mapIdx fun i s => s.marked annotate (t.childPosition i) (throughChild i marks)))) := by
  rw [marked, toExpr.eq_def, toList_render_markedIf]
  cases t with
  | unit | bool | var => simp [Expr.render, needsParens, lead, children]
  | abs x ty body =>
    simp only [Expr.render, toList_parenthesized]
    simp [needsParens, lead, children, marked, childPosition]
  | cond g a b =>
    simp only [Expr.apply, List.foldl, Expr.render, toList_parenthesized]
    simp [needsParens, lead, children, marked, childPosition, between, Layout.parenthesized, List.intercalate]
  | app f a =>
    simp only [Expr.render, toList_parenthesized]
    simp [needsParens, lead, children, marked, childPosition, List.intercalate]

theorem text_eq (annotate : Bool) (position : Position) (t : Term) :
    t.text annotate position =
      between (t.needsParens position) ['('] [')']
        (t.lead annotate ++ [' '].intercalate
          (t.children.mapIdx fun i s => s.text annotate (t.childPosition i))) := by
  simp [text, marked_eq _ _ _ t, throughChild]

theorem text_unit (annotate : Bool) (position : Position) : unit.text annotate position = "()".toList := rfl

theorem text_bool (annotate : Bool) (position : Position) (p : Bool) :
    (bool p).text annotate position = (if p then "True" else "False").toList := rfl

theorem text_var (annotate : Bool) (position : Position) (x : String) : (var x).text annotate position = x.toList := rfl

theorem text_abs (annotate : Bool) (position : Position) (x : String) (ty : Ty) (body : Term) :
    (abs x ty body).text annotate position =
      between (decide (position ≠ .top)) ['('] [')']
        ('\\' :: (((pattern annotate x ty).render .argument).toList ++
          ' ' :: ("->".toList ++ ' ' :: body.text annotate .top))) := by
  rw [text_eq]
  simp [needsParens, lead, children, childPosition]

theorem text_cond (annotate : Bool) (position : Position) (g a b : Term) :
    (cond g a b).text annotate position =
      between (decide (position = .argument)) ['('] [')']
        ("ite".toList ++ ' ' :: (g.text annotate .argument ++
          ' ' :: (a.text annotate .argument ++ ' ' :: b.text annotate .argument))) := by
  rw [text_eq]
  simp [needsParens, lead, children, childPosition, List.intercalate]

theorem text_app (annotate : Bool) (position : Position) (f a : Term) :
    (app f a).text annotate position =
      between (decide (position = .argument)) ['('] [')']
        (f.text annotate .function ++ ' ' :: a.text annotate .argument) := by
  rw [text_eq]
  simp [needsParens, lead, children, childPosition, List.intercalate]

theorem between_ne_nil {needed : Bool} {before after text : List Char} (h : text ≠ []) :
    between needed before after text ≠ [] := by
  cases needed <;> simp [h]

/-- Only the variable with the empty name has an empty text. -/
theorem text_eq_nil_iff : t.text annotate position = [] ↔ t = var "" := by
  cases t with
  | unit => simp [text_unit]
  | bool p => cases p <;> simp [text_bool]
  | var x => simp [text_var]
  | abs x ty body =>
    rw [text_abs]
    simpa using between_ne_nil (by simp)
  | cond g a b =>
    rw [text_cond]
    simpa using between_ne_nil (by simp)
  | app f a =>
    rw [text_app]
    simpa using between_ne_nil (by simp)

theorem layout_eq_empty_iff : t.layout annotate = "" ↔ t = var "" := by
  rw [← String.toList_eq_nil_iff, layout_toList, text_eq_nil_iff]

/-- What stands before child `i` of a node. -/
def beforeChild (annotate : Bool) (position : Position) (t : Term) (i : Nat) : List Char :=
  (if t.needsParens position then ['('] else []) ++ t.lead annotate
    ++ ((t.children.take i).mapIdx fun j s => s.text annotate (t.childPosition j)).flatMap (· ++ [' '])

/-- What stands after child `i` of a node. -/
def afterChild (annotate : Bool) (position : Position) (t : Term) (i : Nat) : List Char :=
  ((t.children.drop (i + 1)).mapIdx fun j s => s.text annotate (t.childPosition (j + (i + 1)))).flatMap ([' '] ++ ·)
    ++ if t.needsParens position then [')'] else []

/-- A node's text is that of a child with what stands before and after it. -/
theorem text_eq_child {i : Nat} (hs : t.children[i]? = some s) :
    t.text annotate position =
      t.beforeChild annotate position i ++ s.text annotate (t.childPosition i) ++ t.afterChild annotate position i := by
  rw [text_eq, mapIdx_of_getElem? hs, intercalate_append_cons]
  cases hp : t.needsParens position <;> simp [beforeChild, afterChild, hp]

/-- The term with another one in the place of child `i`. -/
def replaceChild (t : Term) (i : Nat) (u : Term) : Term :=
  match t, i with
  | abs x ty _, 0 => abs x ty u
  | cond _ a b, 0 => cond u a b
  | cond g _ b, 1 => cond g u b
  | cond g a _, 2 => cond g a u
  | app _ a, 0 => app u a
  | app f _, 1 => app f u
  | t, _ => t

/-- The term with another one in the place of the subterm at a path. -/
def replaceAt (t : Term) (path : Path) (u : Term) : Term :=
  match path with
  | [] => u
  | i :: p =>
    match t.children[i]? with
    | some s => t.replaceChild i (s.replaceAt p u)
    | none => t

theorem children_replaceChild (t : Term) (i : Nat) (u : Term) : (t.replaceChild i u).children = t.children.set i u := by
  cases t <;> rcases i with _ | _ | _ | i <;> rfl

theorem replaceChild_self {i : Nat} (hs : t.children[i]? = some s) : t.replaceChild i s = t := by
  cases t <;> rcases i with _ | _ | _ | i <;> simp_all [children, replaceChild]

/-- A node keeps what is its own when a child is replaced. -/
theorem own_replaceChild (t : Term) (i : Nat) (u : Term) (annotate : Bool) (position : Position) :
    needsParens position (t.replaceChild i u) = t.needsParens position ∧
      lead annotate (t.replaceChild i u) = t.lead annotate ∧
        (t.replaceChild i u).childPosition = t.childPosition := by
  cases t <;> rcases i with _ | _ | _ | i <;> exact ⟨rfl, rfl, rfl⟩

theorem text_replaceChild {i : Nat} (hs : t.children[i]? = some s) (u : Term) :
    (t.replaceChild i u).text annotate position =
      t.beforeChild annotate position i ++ u.text annotate (t.childPosition i) ++ t.afterChild annotate position i := by
  obtain ⟨hp, hl, hc⟩ := own_replaceChild t i u annotate position
  have hi : (t.replaceChild i u).children[i]? = some u := by
    rw [children_replaceChild, List.getElem?_set_self (List.getElem?_eq_some_iff.mp hs).1]
  rw [text_eq_child hi]
  simp only [beforeChild, afterChild, children_replaceChild, hp, hl, hc, List.take_set_of_le (Nat.le_refl i),
    List.drop_set_of_lt (Nat.lt_succ_self i)]

/-! ## Around a subterm -/

/-- Where the subterm at a path stands. -/
def positionAt (position : Position) : Term → Path → Position
  | _, [] => position
  | t, i :: p =>
    match t.children[i]? with
    | some s => s.positionAt (t.childPosition i) p
    | none => position

/-- What stands before the subterm at a path. -/
def before (annotate : Bool) (position : Position) : Term → Path → List Char
  | _, [] => []
  | t, i :: p =>
    match t.children[i]? with
    | some s => t.beforeChild annotate position i ++ s.before annotate (t.childPosition i) p
    | none => []

/-- What stands after the subterm at a path. -/
def after (annotate : Bool) (position : Position) : Term → Path → List Char
  | _, [] => []
  | t, i :: p =>
    match t.children[i]? with
    | some s => s.after annotate (t.childPosition i) p ++ t.afterChild annotate position i
    | none => []

variable {p q : Path} {u : Term} {i : Nat}

theorem before_cons (hs : t.children[i]? = some s) (p : Path) :
    t.before annotate position (i :: p) =
      t.beforeChild annotate position i ++ s.before annotate (t.childPosition i) p := by
  rw [before, hs]

theorem after_cons (hs : t.children[i]? = some s) (p : Path) :
    t.after annotate position (i :: p) =
      s.after annotate (t.childPosition i) p ++ t.afterChild annotate position i := by
  rw [after, hs]

theorem positionAt_cons (hs : t.children[i]? = some s) (p : Path) :
    t.positionAt position (i :: p) = s.positionAt (t.childPosition i) p := by
  rw [positionAt, hs]

theorem replaceAt_cons (hs : t.children[i]? = some s) (p : Path) (u : Term) :
    t.replaceAt (i :: p) u = t.replaceChild i (s.replaceAt p u) := by
  rw [replaceAt, hs]

theorem replaceAt_self (h : t.at? p = some s) : t.replaceAt p s = t := by
  induction p generalizing t with
  | nil => exact (Option.some.inj h).symm
  | cons i p ih =>
    obtain ⟨c, hc, hs⟩ := at?_cons_eq_some_iff.mp h
    rw [replaceAt_cons hc, ih hs, replaceChild_self hc]

/-- What stands around a subterm does not change when another one takes its place. -/
theorem text_replaceAt (h : t.at? p = some s) (u : Term) :
    (t.replaceAt p u).text annotate position =
      t.before annotate position p ++ u.text annotate (t.positionAt position p) ++ t.after annotate position p := by
  induction p generalizing t position with
  | nil => simp [replaceAt, before, after, positionAt]
  | cons i p ih =>
    obtain ⟨c, hc, hs⟩ := at?_cons_eq_some_iff.mp h
    rw [replaceAt_cons hc, text_replaceChild hc, ih hs, before_cons hc, after_cons hc, positionAt_cons hc]
    simp only [List.append_assoc]

theorem text_eq_at (annotate : Bool) (position : Position) (h : t.at? p = some s) :
    t.text annotate position =
      t.before annotate position p ++ s.text annotate (t.positionAt position p) ++ t.after annotate position p := by
  rw [← text_replaceAt h, replaceAt_self h]

theorem before_append (h : t.at? p = some s) (q : Path) :
    t.before annotate position (p ++ q) =
      t.before annotate position p ++ s.before annotate (t.positionAt position p) q := by
  induction p generalizing t position with
  | nil =>
    obtain rfl := Option.some.inj h
    rfl
  | cons i p ih =>
    obtain ⟨c, hc, hs⟩ := at?_cons_eq_some_iff.mp h
    rw [List.cons_append, before_cons hc, before_cons hc, ih hs, positionAt_cons hc, List.append_assoc]

theorem positionAt_append (h : t.at? p = some s) (q : Path) :
    t.positionAt position (p ++ q) = s.positionAt (t.positionAt position p) q := by
  induction p generalizing t position with
  | nil =>
    obtain rfl := Option.some.inj h
    rfl
  | cons i p ih =>
    obtain ⟨c, hc, hs⟩ := at?_cons_eq_some_iff.mp h
    rw [List.cons_append, positionAt_cons hc, positionAt_cons hc, ih hs]

theorem beforeChild_of_lt (annotate : Bool) (position : Position) {j : Nat} (hs : t.children[i]? = some s)
    (hij : i < j) : ∃ rest, t.beforeChild annotate position j =
      t.beforeChild annotate position i ++ s.text annotate (t.childPosition i) ++ [' '] ++ rest := by
  have hi : (t.children.take j)[i]? = some s := by rw [List.getElem?_take_of_lt hij, hs]
  rw [beforeChild, mapIdx_of_getElem? hi, List.take_take, Nat.min_eq_left hij.le, List.flatMap_append,
    List.flatMap_cons, beforeChild]
  exact ⟨_, by simp only [List.append_assoc]; rfl⟩

end Term

end SimplyTyped
