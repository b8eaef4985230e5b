import Mathlib
import SimplyTyped.Proofs.Freshness
import SimplyTyped.Proofs.Rendering

/-!
# SimplyTyped.Proofs.Unambiguity — a text has one reading

A reader takes a text character by character and puts it together into words and groups (`Reader.step`).  What it reads
from the text of a type or of a term are the items of that type or term (`Ty.reads`, `Term.reads`), provided that the
names are words that a reader can tell from the rest.  So texts that are the same have the same items, and the items
determine a type, and a term up to the types that are not shown: a lambda begins with its mark, a conditional is a call
of `ite` with three arguments and an application of it has more of them, and an argument is always one item.
-/

namespace SimplyTyped

open Layout (Position Expr)

namespace Layout

/-! ## Reading a text -/

/-- What a text is made of: words, the mark that begins a lambda, and groups in parentheses. -/
inductive Item where
  | word (text : List Char)
  | lambda
  | group (items : List Item)

/-- A reader in the middle of a text: the word it is in, what it has read of the innermost open group, and what it had
read of the groups around when the ones inside them began. -/
structure Reader where
  pending : List Char
  items : List Item
  outer : List (List Item)

namespace Reader

/-- The word that a reader is in ends. -/
def flush (r : Reader) : Reader :=
  if r.pending = [] then r else ⟨[], r.items ++ [.word r.pending], r.outer⟩

/-- A reader takes one character.  A closing parenthesis without an opening one counts as a blank. -/
def step (r : Reader) (c : Char) : Reader :=
  if c = ' ' then r.flush
  else if c = '(' then ⟨[], [], r.flush.items :: r.outer⟩
  else if c = '\\' then ⟨[], r.flush.items ++ [.lambda], r.outer⟩
  else if c = ')' then
    match r.outer with
    | [] => r.flush
    | items :: outer => ⟨[], items ++ [.group r.flush.items], outer⟩
  else ⟨r.pending ++ [c], r.items, r.outer⟩

end Reader

open Reader (flush step)

/-- Wherever a reader is between two words, it reads these items from the text. -/
def ReadsAs (text : List Char) (items : List Item) : Prop :=
  ∀ before outer, (text.foldl step ⟨[], before, outer⟩).flush = ⟨[], before ++ items, outer⟩

/-- A character that stands in words. -/
def IsPlain (c : Char) : Prop := c ≠ ' ' ∧ c ≠ '(' ∧ c ≠ ')' ∧ c ≠ '\\'

namespace ReadsAs

variable {a b : List Char} {xs ys : List Item}

theorem unique (hx : ReadsAs a xs) (hy : ReadsAs a ys) : xs = ys := by
  have h := (hx [] []).symm.trans (hy [] [])
  simpa using h

theorem nil : ReadsAs [] [] := by
  intro before outer
  simp [flush]

theorem foldl_step_plain {w : List Char} (hw : ∀ c ∈ w, IsPlain c) (r : Reader) :
    w.foldl step r = ⟨r.pending ++ w, r.items, r.outer⟩ := by
  induction w generalizing r with
  | nil => simp
  | cons c w ih =>
    obtain ⟨h₁, h₂, h₃, h₄⟩ := hw c List.mem_cons_self
    rw [List.foldl_cons, ih fun d hd => hw d (List.mem_cons_of_mem _ hd)]
    simp [step, h₁, h₂, h₃, h₄]

theorem word {w : List Char} (hn : w ≠ []) (hw : ∀ c ∈ w, IsPlain c) : ReadsAs w [.word w] := by
  intro before outer
  rw [foldl_step_plain hw]
  simp [flush, hn]

theorem append (ha : ReadsAs a xs) (hb : ReadsAs b ys) : ReadsAs (a ++ ' ' :: b) (xs ++ ys) := by
  intro before outer
  have hs : step (a.foldl step ⟨[], before, outer⟩) ' ' = ⟨[], before ++ xs, outer⟩ := by
    rw [step, if_pos rfl, ha]
  rw [List.foldl_append, List.foldl_cons, hs, hb, List.append_assoc]

theorem lambda (ha : ReadsAs a xs) : ReadsAs ('\\' :: a) (.lambda :: xs) := by
  intro before outer
  have hs : step ⟨[], before, outer⟩ '\\' = ⟨[], before ++ [.lambda], outer⟩ := by
    simp [step, flush]
  rw [List.foldl_cons, hs, ha, List.append_assoc, List.singleton_append]

theorem outer_foldl_step (ha : ReadsAs a xs) (before : List Item) (outer : List (List Item)) :
    (a.foldl step ⟨[], before, outer⟩).outer = outer := by
  have h := ha before outer
  unfold flush at h
  split_ifs at h with hp
  · rw [h]
  · exact (Reader.mk.inj h).2.2

theorem group (ha : ReadsAs a xs) : ReadsAs ('(' :: (a ++ [')'])) [.group xs] := by
  intro before outer
  have ho : step ⟨[], before, outer⟩ '(' = ⟨[], [], before :: outer⟩ := by simp [step, flush]
  have hout := outer_foldl_step ha [] (before :: outer)
  have hc : step (a.foldl step ⟨[], [], before :: outer⟩) ')' = ⟨[], before ++ [.group xs], outer⟩ := by
    rw [step, if_neg (by decide), if_neg (by decide), if_neg (by decide), if_pos rfl, hout, ha]
    simp
  rw [List.foldl_cons, ho, List.foldl_append, List.foldl_cons, hc]
  simp [flush]

end ReadsAs

/-- Items in a group when asked for. -/
def groupedIf (needed : Bool) (items : List Item) : List Item := if needed then [.group items] else items

theorem ReadsAs.between {needed : Bool} {a : List Char} {xs : List Item} (h : ReadsAs a xs) :
    ReadsAs (Term.between needed ['('] [')'] a) (groupedIf needed xs) := by
  cases needed with
  | false => exact h
  | true => exact h.group

end Layout

open Layout

/-! ## Types -/

namespace Ty

/-- The items of a type at a position. -/
def items (position : Position) : Ty → List Item
  | unit => [.group []]
  | bool => [.word "Bool".toList]
  | arrow d c => groupedIf (position ≠ .top) (d.items .function ++ .word "->".toList :: c.items .top)

@[simp]
theorem items_unit (position : Position) : unit.items position = [.group []] := rfl

@[simp]
theorem items_bool (position : Position) : bool.items position = [.word "Bool".toList] := rfl

@[simp]
theorem items_arrow_function (d c : Ty) : (arrow d c).items .function = [.group ((arrow d c).items .top)] := rfl

@[simp]
theorem items_arrow_top (d c : Ty) :
    (arrow d c).items .top = d.items .function ++ .word "->".toList :: c.items .top := rfl

theorem toList_render_arrow (position : Position) (d c : Ty) :
    ((arrow d c).toExpr.render position).toList =
      Term.between (decide (position ≠ .top)) ['('] [')']
        ((d.toExpr.render .function).toList ++ ' ' :: ("->".toList ++ ' ' :: (c.toExpr.render .top).toList)) := by
  rw [toExpr, Expr.render, Term.toList_parenthesized]
  simp

theorem reads_arrow_sign : ReadsAs "->".toList [.word "->".toList] := ReadsAs.word (by decide) (by simp [IsPlain])

theorem reads (ty : Ty) (position : Position) : ReadsAs (ty.toExpr.render position).toList (ty.items position) := by
  induction ty generalizing position with
  | unit =>
    rw [show (unit.toExpr.render position).toList = "()".toList from rfl]
    exact ReadsAs.nil.group
  | bool =>
    rw [show (bool.toExpr.render position).toList = "Bool".toList from rfl]
    exact ReadsAs.word (by decide) (by simp [IsPlain])
  | arrow d c ihd ihc =>
    rw [toList_render_arrow]
    exact ((ihd .function).append (reads_arrow_sign.append (ihc .top))).between

/-- In front of an arrow a type is one item. -/
theorem exists_items_function (ty : Ty) : ∃ i, ty.items .function = [i] := by
  cases ty <;> exact ⟨_, rfl⟩

theorem items_top_of_items_function {s t : Ty} (h : s.items .function = t.items .function) :
    s.items .top = t.items .top := by
  cases s <;> cases t <;> simp_all

theorem items_top_injective : Function.Injective (items .top) := by
  intro s t h
  induction s generalizing t with
  | unit | bool =>
    cases t with
    | unit | bool => simp_all
    | arrow d c =>
      obtain ⟨i, hi⟩ := exists_items_function d
      simp [hi] at h
  | arrow d c ihd ihc =>
    obtain ⟨i, hi⟩ := exists_items_function d
    cases t with
    | unit | bool => simp [hi] at h
    | arrow d' c' =>
      obtain ⟨i', hi'⟩ := exists_items_function d'
      rw [items_arrow_top, items_arrow_top, hi, hi'] at h
      obtain ⟨hii, hc⟩ := List.cons.inj h
      have hd := items_top_of_items_function (hi.trans (hii ▸ hi'.symm))
      rw [ihd hd, ihc (List.cons.inj hc).2]

theorem layout_injective : Function.Injective layout := by
  intro s t h
  have ht : ReadsAs t.layout.toList (t.items .top) := t.reads .top
  rw [← h] at ht
  exact items_top_injective ((s.reads .top).unique ht)

end Ty

namespace Term

/-! ## Terms -/

variable {annotate : Bool} {position : Position} {t u : Term}

/-- A name that stands for itself in a text: a word that is none of the fixed ones. -/
def IsOrdinary (x : String) : Prop :=
  x.toList ≠ [] ∧ (∀ c ∈ x.toList, IsPlain c) ∧ x ∉ ["ite", "True", "False", "->", "::"]

/-- All names of the term are ordinary. -/
def Ordinary (t : Term) : Prop := ∀ x ∈ t.names, IsOrdinary x

/-- The item of a binder. -/
def patternItem (annotate : Bool) (x : String) (ty : Ty) : Item :=
  if annotate then .group (.word x.toList :: .word "::".toList :: ty.items .top) else .word x.toList

/-- The items of a term at a position. -/
def items (annotate : Bool) (position : Position) : Term → List Item
  | unit => [.group []]
  | bool p => [.word (if p then "True" else "False").toList]
  | var x => [.word x.toList]
  | abs x ty body =>
    groupedIf (position ≠ .top)
      (.lambda :: patternItem annotate x ty :: .word "->".toList :: body.items annotate .top)
  | cond g a b =>
    groupedIf (position = .argument)
      (.word "ite".toList :: (g.items annotate .argument ++ (a.items annotate .argument ++ b.items annotate .argument)))
  | app f a => groupedIf (position = .argument) (f.items annotate .function ++ a.items annotate .argument)

@[simp]
theorem items_unit (annotate : Bool) (position : Position) : unit.items annotate position = [.group []] := rfl

@[simp]
theorem items_bool (annotate : Bool) (position : Position) (p : Bool) :
    (bool p).items annotate position = [.word (if p then "True" else "False").toList] := rfl

@[simp]
theorem items_var (annotate : Bool) (position : Position) (x : String) :
    (var x).items annotate position = [.word x.toList] := rfl

@[simp]
theorem items_abs_top (annotate : Bool) (x : String) (ty : Ty) (body : Term) :
    (abs x ty body).items annotate .top =
      .lambda :: patternItem annotate x ty :: .word "->".toList :: body.items annotate .top := rfl

theorem items_cond_top (annotate : Bool) (g a b : Term) :
    (cond g a b).items annotate .top =
      .word "ite".toList ::
        (g.items annotate .argument ++ (a.items annotate .argument ++ b.items annotate .argument)) := rfl

theorem items_app_top (annotate : Bool) (f a : Term) :
    (app f a).items annotate .top = f.items annotate .function ++ a.items annotate .argument := rfl

theorem items_app_function (annotate : Bool) (f a : Term) :
    (app f a).items annotate .function = f.items annotate .function ++ a.items annotate .argument := rfl

theorem ordinary_abs_iff {x : String} {S : Ty} : (abs x S t).Ordinary ↔ IsOrdinary x ∧ t.Ordinary := by
  simp [Ordinary, names]

theorem ordinary_cond_iff {g a b : Term} : (cond g a b).Ordinary ↔ g.Ordinary ∧ a.Ordinary ∧ b.Ordinary := by
  simp only [Ordinary, names, List.forall_mem_append, and_assoc]

theorem ordinary_app_iff {f a : Term} : (app f a).Ordinary ↔ f.Ordinary ∧ a.Ordinary := by
  simp only [Ordinary, names, List.forall_mem_append]

theorem reads_pattern {x : String} (hx : IsOrdinary x) (ty : Ty) :
    ReadsAs ((pattern annotate x ty).render .argument).toList [patternItem annotate x ty] := by
  have hw : ReadsAs x.toList [.word x.toList] := ReadsAs.word hx.1 hx.2.1
  cases annotate with
  | false => exact hw
  | true =>
    have hsign : ReadsAs "::".toList [.word "::".toList] := ReadsAs.word (by decide) (by simp [IsPlain])
    have h := (hw.append (hsign.append (ty.reads .top))).group
    rw [show ((pattern true x ty).render .argument).toList =
      '(' :: ((x.toList ++ ' ' :: ("::".toList ++ ' ' :: (ty.toExpr.render .top).toList)) ++ [')']) by
        simp [pattern, Expr.render]]
    exact h

/-- The text of a term reads as the items of the term. -/
theorem reads (annotate : Bool) (position : Position) (ht : t.Ordinary) :
    ReadsAs (t.text annotate position) (t.items annotate position) := by
  induction t generalizing position with
  | unit =>
    rw [text_unit]
    exact ReadsAs.nil.group
  | bool p =>
    rw [text_bool]
    cases p <;> exact ReadsAs.word (by decide) (by simp [IsPlain])
  | var x =>
    have hx := ht x (by simp [names])
    rw [text_var]
    exact ReadsAs.word hx.1 hx.2.1
  | abs x ty body ih =>
    obtain ⟨hx, hbody⟩ := ordinary_abs_iff.mp ht
    rw [text_abs]
    exact ((reads_pattern hx ty).append (Ty.reads_arrow_sign.append (ih .top hbody))).lambda.between
  | cond g a b ihg iha ihb =>
    have hite : ReadsAs "ite".toList [.word "ite".toList] := ReadsAs.word (by decide) (by simp [IsPlain])
    obtain ⟨hg, ha, hb⟩ := ordinary_cond_iff.mp ht
    rw [text_cond]
    exact (hite.append ((ihg .argument hg).append ((iha .argument ha).append (ihb .argument hb)))).between
  | app f a ihf iha =>
    obtain ⟨hf, ha⟩ := ordinary_app_iff.mp ht
    rw [text_app]
    exact ((ihf .function hf).append (iha .argument ha)).between

/-! ## Items of different terms -/

theorem items_eq_groupedIf (annotate : Bool) (position : Position) (t : Term) :
    t.items annotate position = groupedIf (t.needsParens position) (t.items annotate .top) := by
  cases t <;> cases position <;> rfl

/-- An argument is one item. -/
theorem length_items_argument (annotate : Bool) (t : Term) : (t.items annotate .argument).length = 1 := by
  cases t <;> rfl

theorem exists_items_argument (annotate : Bool) (t : Term) : ∃ i, t.items annotate .argument = [i] :=
  List.length_eq_one_iff.mp (length_items_argument annotate t)

theorem exists_items_cond (annotate : Bool) (g a b : Term) :
    ∃ i j k, (cond g a b).items annotate .top = [.word "ite".toList, i, j, k] := by
  obtain ⟨i, hi⟩ := exists_items_argument annotate g
  obtain ⟨j, hj⟩ := exists_items_argument annotate a
  obtain ⟨k, hk⟩ := exists_items_argument annotate b
  exact ⟨i, j, k, by rw [items_cond_top, hi, hj, hk]; rfl⟩

/-- What stands before its arguments begins with no lambda, and with the head of a conditional only when the three
arguments of a conditional follow. -/
theorem exists_items_function (annotate : Bool) (ht : t.Ordinary) :
    ∃ i rest, t.items annotate .function = i :: rest ∧ i ≠ .lambda ∧ (i = .word "ite".toList → 3 ≤ rest.length) := by
  induction t with
  | unit => exact ⟨.group [], [], rfl, by simp, by simp⟩
  | bool p => exact ⟨_, [], rfl, by simp, by cases p <;> simp⟩
  | var x =>
    have hx := (ht x (by simp [names])).2.2
    refine ⟨_, [], rfl, by simp, fun h => ?_⟩
    rw [Item.word.injEq, String.toList_inj] at h
    simp [h] at hx
  | abs x ty body => exact ⟨_, [], rfl, by simp, by simp⟩
  | cond g a b =>
    obtain ⟨i, j, k, h⟩ := exists_items_cond annotate g a b
    exact ⟨_, [i, j, k], h, by simp, fun _ => Nat.le_refl 3⟩
  | app f a ihf _ =>
    obtain ⟨i, rest, hf, hl, hite⟩ := ihf (ordinary_app_iff.mp ht).1
    obtain ⟨j, hj⟩ := exists_items_argument annotate a
    refine ⟨i, rest ++ [j], ?_, hl, fun h => ?_⟩
    · rw [items_app_function, hf, hj, List.cons_append]
    · have := hite h
      rw [List.length_append]
      omega

theorem exists_items_app (annotate : Bool) {f a : Term} (ht : (app f a).Ordinary) :
    ∃ i j rest, (app f a).items annotate .top = i :: j :: rest ∧ i ≠ .lambda ∧
      (i = .word "ite".toList → 3 ≤ rest.length) := by
  obtain ⟨i, rest, hf, hl, hite⟩ := exists_items_function annotate (ordinary_app_iff.mp ht).1
  obtain ⟨k, hk⟩ := exists_items_argument annotate a
  cases rest with
  | nil => exact ⟨i, k, [], by rw [items_app_top, hf, hk]; rfl, hl, fun h => absurd (hite h) (by decide)⟩
  | cons j rest =>
    refine ⟨i, j, rest ++ [k], by rw [items_app_top, hf, hk]; rfl, hl, fun h => ?_⟩
    have hlen := hite h
    rw [List.length_cons] at hlen
    rw [List.length_append, List.length_singleton]
    omega

/-! ## What reads like a form has this form -/

theorem items_top_ne_nil (annotate : Bool) (t : Term) : t.items annotate .top ≠ [] := by
  cases t with
  | unit | bool | var | abs => simp
  | cond g a b =>
    obtain ⟨i, j, k, h⟩ := exists_items_cond annotate g a b
    simp [h]
  | app f a =>
    obtain ⟨i, hi⟩ := exists_items_argument annotate a
    simp [items_app_top, hi]

theorem eq_unit_of_items_top {xs : List Item} (ht : t.Ordinary) (h : t.items annotate .top = [.group xs]) :
    t = unit := by
  cases t with
  | unit => rfl
  | bool | var | abs => simp at h
  | cond g a b =>
    obtain ⟨i, j, k, hc⟩ := exists_items_cond annotate g a b
    simp [hc] at h
  | app f a =>
    obtain ⟨i, j, rest, ha, -⟩ := exists_items_app annotate ht
    simp [ha] at h

theorem eq_bool_of_items_top {p : Bool} (ht : t.Ordinary)
    (h : t.items annotate .top = [.word (if p then "True" else "False").toList]) : t = bool p := by
  cases t with
  | bool q => cases p <;> cases q <;> simp at h ⊢
  | var x =>
    have hx := (ht x (by simp [names])).2.2
    simp only [items_var, List.cons.injEq, Item.word.injEq, String.toList_inj, and_true] at h
    cases p <;> simp [h] at hx
  | unit | abs => simp at h
  | cond g a b =>
    obtain ⟨i, j, k, hc⟩ := exists_items_cond annotate g a b
    simp [hc] at h
  | app f a =>
    obtain ⟨i, j, rest, ha, -⟩ := exists_items_app annotate ht
    simp [ha] at h

theorem eq_var_of_items_top {x : String} (ht : t.Ordinary) (hx : IsOrdinary x)
    (h : t.items annotate .top = [.word x.toList]) : t = var x := by
  cases t with
  | bool p =>
    simp only [items_bool, List.cons.injEq, Item.word.injEq, String.toList_inj, and_true] at h
    have hn := hx.2.2
    cases p <;> simp [← h] at hn
  | var y =>
    simp only [items_var, List.cons.injEq, Item.word.injEq, String.toList_inj, and_true] at h
    rw [h]
  | unit | abs => simp at h
  | cond g a b =>
    obtain ⟨i, j, k, hc⟩ := exists_items_cond annotate g a b
    simp [hc] at h
  | app f a =>
    obtain ⟨i, j, rest, ha, -⟩ := exists_items_app annotate ht
    simp [ha] at h

theorem exists_abs_of_items_top {rest : List Item} (ht : t.Ordinary) (h : t.items annotate .top = .lambda :: rest) :
    ∃ x ty body, t = abs x ty body := by
  cases t with
  | abs x ty body => exact ⟨x, ty, body, rfl⟩
  | unit | bool | var => simp at h
  | cond g a b =>
    obtain ⟨i, j, k, hc⟩ := exists_items_cond annotate g a b
    simp [hc] at h
  | app f a =>
    obtain ⟨i, j, rest, ha, hl, -⟩ := exists_items_app annotate ht
    rw [ha] at h
    exact absurd (List.cons.inj h).1 hl

/-- A call of the conditional with three arguments is a conditional; an application of one has more of them. -/
theorem exists_cond_of_items_top {i j k : Item} (ht : t.Ordinary)
    (h : t.items annotate .top = [.word "ite".toList, i, j, k]) : ∃ g a b, t = cond g a b := by
  cases t with
  | cond g a b => exact ⟨g, a, b, rfl⟩
  | unit | bool | var | abs => simp at h
  | app f a =>
    obtain ⟨i', j', rest, ha, -, hite⟩ := exists_items_app annotate ht
    rw [ha] at h
    obtain ⟨hi, hj⟩ := List.cons.inj h
    have hrest := congrArg List.length (List.cons.inj hj).2
    have hlen := hite hi
    simp only [List.length_cons, List.length_nil] at hrest
    omega

theorem exists_app_of_items_top {f a : Term} (ht : t.Ordinary) (hfa : (app f a).Ordinary)
    (h : t.items annotate .top = (app f a).items annotate .top) : ∃ f' a', t = app f' a' := by
  obtain ⟨i, j, rest, ha, hl, hite⟩ := exists_items_app annotate hfa
  cases t with
  | app f' a' => exact ⟨f', a', rfl⟩
  | unit | bool | var =>
    rw [ha] at h
    simp at h
  | abs x ty body =>
    rw [ha] at h
    exact absurd (List.cons.inj h).1.symm hl
  | cond g b c =>
    obtain ⟨i', j', k', hc⟩ := exists_items_cond annotate g b c
    obtain ⟨g', b', c', happ⟩ := exists_cond_of_items_top hfa (h.symm.trans hc)
    cases happ

/-- A term in parentheses reads like no other term without. -/
theorem group_ne_items_top (ht : t.Ordinary) (u : Term) : t.items annotate .top ≠ [.group (u.items annotate .top)] := by
  intro h
  obtain rfl := eq_unit_of_items_top ht h
  rw [items_unit, List.cons.injEq, Item.group.injEq] at h
  exact items_top_ne_nil annotate u h.1.symm

/-- Terms that read alike at some position read alike at the top. -/
theorem items_top_of_items (ht : t.Ordinary) (hu : u.Ordinary)
    (h : t.items annotate position = u.items annotate position) : t.items annotate .top = u.items annotate .top := by
  rw [items_eq_groupedIf annotate position t, items_eq_groupedIf annotate position u] at h
  cases hp : t.needsParens position <;> cases hq : u.needsParens position <;> rw [hp, hq] at h
  case false.false => exact h
  case false.true => exact absurd h (group_ne_items_top ht u)
  case true.false => exact absurd h.symm (group_ne_items_top hu t)
  case true.true => simpa [groupedIf] using h

/-- The term with the types that its text shows: with annotations all of them, without them none. -/
@[simp]
def shown (annotate : Bool) : Term → Term
  | unit => unit
  | bool p => bool p
  | var x => var x
  | abs x ty body => abs x (if annotate then ty else .unit) (body.shown annotate)
  | cond g a b => cond (g.shown annotate) (a.shown annotate) (b.shown annotate)
  | app f a => app (f.shown annotate) (a.shown annotate)

theorem shown_true (t : Term) : t.shown true = t := by
  induction t <;> simp_all

theorem patternItem_inj {x y : String} {S T : Ty} (h : patternItem annotate x S = patternItem annotate y T) :
    x = y ∧ (if annotate then S else .unit) = if annotate then T else .unit := by
  cases annotate with
  | false =>
    rw [patternItem, patternItem] at h
    exact ⟨String.toList_inj.mp (by simpa using h), rfl⟩
  | true =>
    simp only [patternItem, if_true, Item.group.injEq, List.cons.injEq, Item.word.injEq, true_and] at h
    exact ⟨String.toList_inj.mp h.1, Ty.items_top_injective h.2⟩

theorem shown_eq_of_items_top (ht : t.Ordinary) (hu : u.Ordinary) (h : t.items annotate .top = u.items annotate .top) :
    t.shown annotate = u.shown annotate := by
  induction t generalizing u with
  | unit => rw [eq_unit_of_items_top hu h.symm]
  | bool p => rw [eq_bool_of_items_top hu h.symm]
  | var x => rw [eq_var_of_items_top hu (ht x (by simp [names])) h.symm]
  | abs x S body ih =>
    obtain ⟨y, T, body', rfl⟩ := exists_abs_of_items_top hu h.symm
    obtain ⟨-, h⟩ := List.cons.inj h
    obtain ⟨hp, h⟩ := List.cons.inj h
    obtain ⟨-, hb⟩ := List.cons.inj h
    obtain ⟨rfl, hT⟩ := patternItem_inj hp
    rw [shown, shown, hT, ih (ordinary_abs_iff.mp ht).2 (ordinary_abs_iff.mp hu).2 hb]
  | cond g a b ihg iha ihb =>
    obtain ⟨i, j, k, hc⟩ := exists_items_cond annotate g a b
    obtain ⟨g', a', b', rfl⟩ := exists_cond_of_items_top hu (h.symm.trans hc)
    obtain ⟨-, h⟩ := List.cons.inj h
    obtain ⟨hg, h⟩ := List.append_inj h (by rw [length_items_argument, length_items_argument])
    obtain ⟨ha, hb⟩ := List.append_inj h (by rw [length_items_argument, length_items_argument])
    obtain ⟨htg, hta, htb⟩ := ordinary_cond_iff.mp ht
    obtain ⟨hug, hua, hub⟩ := ordinary_cond_iff.mp hu
    rw [shown, shown, ihg htg hug (items_top_of_items htg hug hg), iha hta hua (items_top_of_items hta hua ha),
      ihb htb hub (items_top_of_items htb hub hb)]
  | app f a ihf iha =>
    obtain ⟨f', a', rfl⟩ := exists_app_of_items_top hu ht h.symm
    obtain ⟨htf, hta⟩ := ordinary_app_iff.mp ht
    obtain ⟨huf, hua⟩ := ordinary_app_iff.mp hu
    rw [items_app_top, items_app_top] at h
    obtain ⟨hf, ha⟩ := List.append_inj' h (by rw [length_items_argument, length_items_argument])
    rw [shown, shown, ihf htf huf (items_top_of_items htf huf hf), iha hta hua (items_top_of_items hta hua ha)]

theorem text_shown (annotate : Bool) (position : Position) (t : Term) :
    (t.shown annotate).text annotate position = t.text annotate position := by
  induction t generalizing position with
  | unit | bool | var => rfl
  | abs x S body ih =>
    have hp : pattern annotate x (if annotate then S else .unit) = pattern annotate x S := by cases annotate <;> rfl
    rw [shown, text_abs, text_abs, hp, ih]
  | cond g a b ihg iha ihb => rw [shown, text_cond, text_cond, ihg, iha, ihb]
  | app f a ihf iha => rw [shown, text_app, text_app, ihf, iha]

/-- **Terms with ordinary names have the same text iff they are the same up to the types that the text leaves out.** -/
theorem layout_eq_iff (annotate : Bool) (ht : t.Ordinary) (hu : u.Ordinary) :
    t.layout annotate = u.layout annotate ↔ t.shown annotate = u.shown annotate := by
  constructor
  · intro h
    have hr := reads annotate .top hu
    rw [← layout_toList, ← h, layout_toList] at hr
    exact shown_eq_of_items_top ht hu ((reads annotate .top ht).unique hr)
  · intro h
    rw [← String.toList_inj, layout_toList, layout_toList, ← text_shown, h, text_shown]

end Term

/-- **Texts are unambiguous.** -/
theorem layout_unambiguous :
    Function.Injective Ty.layout ∧
      ∀ t u : Term, t.Ordinary → u.Ordinary →
        (t.layout true = u.layout true → t = u) ∧
          (t.layout false = u.layout false ↔ t.shown false = u.shown false) := by
  refine ⟨Ty.layout_injective, fun t u ht hu => ⟨fun h => ?_, Term.layout_eq_iff false ht hu⟩⟩
  have hs := (Term.layout_eq_iff true ht hu).mp h
  rwa [Term.shown_true, Term.shown_true] at hs

/-- Two abstractions that differ in the type of the parameter have one plain text and two annotated ones. -/
theorem layout_unambiguous_of_lambdas :
    (Term.abs "f" (.arrow .bool .unit) (.app (.var "f") (.var "x"))).Ordinary ∧
      (Term.abs "f" .unit (.app (.var "f") (.var "x"))).Ordinary ∧
      (Term.abs "f" (.arrow .bool .unit) (.app (.var "f") (.var "x"))).layout false =
        (Term.abs "f" .unit (.app (.var "f") (.var "x"))).layout false ∧
      (Term.abs "f" (.arrow .bool .unit) (.app (.var "f") (.var "x"))).layout true ≠
        (Term.abs "f" .unit (.app (.var "f") (.var "x"))).layout true := by
  have hf : Term.IsOrdinary "f" := by simp [Term.IsOrdinary, Layout.IsPlain]
  have hx : Term.IsOrdinary "x" := by simp [Term.IsOrdinary, Layout.IsPlain]
  have ht : (Term.abs "f" (.arrow .bool .unit) (.app (.var "f") (.var "x"))).Ordinary := by
    simp [Term.Ordinary, Term.names, hf, hx]
  have hu : (Term.abs "f" .unit (.app (.var "f") (.var "x"))).Ordinary := by
    simp [Term.Ordinary, Term.names, hf, hx]
  obtain ⟨hall, heq⟩ := layout_unambiguous.2 _ _ ht hu
  exact ⟨ht, hu, heq.mpr rfl, fun h => by simpa using hall h⟩

end SimplyTyped
