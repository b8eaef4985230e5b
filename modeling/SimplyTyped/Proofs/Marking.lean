import Mathlib
import SimplyTyped.Proofs.Rendering

/-!
# SimplyTyped.Proofs.Marking — marks show in a text as sentinels and in no other way

An expression without its marks is built anew (`Expr.unmarked`), and where a mark stood around the head of an
application, the arguments inside it and those behind it become arguments of one application (`Expr.applied`).  The
text does not tell: it lists the arguments behind the head in either case (`toList_render_apply`).

A text with sentinels is taken apart into the text without them and the nesting of the sentinels, and so is what is
put together from such texts (`ConsistsOf.append`).  So the rendering of an expression consists of the rendering
without marks and a nesting that has one pair for each mark.
-/

namespace SimplyTyped.Layout

open Term (between)

/-! ## Sentinels in a text -/

/-- What a character does to the nesting of marks. -/
def sentinel? (c : Char) : Option DyckStep :=
  if c = markStart then some .U else if c = markEnd then some .D else none

/-- A text without its sentinels. -/
def withoutSentinels (text : List Char) : List Char := text.filter fun c => (sentinel? c).isNone

/-- The sentinels of a text. -/
def sentinels (text : List Char) : List DyckStep := text.filterMap sentinel?

/-- A text consists of a plain text and of sentinels that are nested in it. -/
structure ConsistsOf (text plain : List Char) (nesting : DyckWord) : Prop where
  withoutSentinels_eq : withoutSentinels text = plain
  sentinels_eq : sentinels text = nesting.toList

namespace ConsistsOf

variable {text plain text' plain' : List Char} {nesting nesting' : DyckWord}

theorem append (h : ConsistsOf text plain nesting) (h' : ConsistsOf text' plain' nesting') :
    ConsistsOf (text ++ text') (plain ++ plain') (nesting + nesting') where
  withoutSentinels_eq := by
    rw [withoutSentinels, List.filter_append, ← withoutSentinels, ← withoutSentinels, h.1, h'.1]
  sentinels_eq := by
    rw [sentinels, List.filterMap_append, ← sentinels, ← sentinels, h.2, h'.2]
    rfl

theorem of_notMem (hs : markStart ∉ text) (he : markEnd ∉ text) : ConsistsOf text text 0 := by
  have hnone : ∀ c ∈ text, sentinel? c = none := by
    intro c hc
    rw [sentinel?, if_neg (ne_of_mem_of_not_mem hc hs), if_neg (ne_of_mem_of_not_mem hc he)]
  exact ⟨List.filter_eq_self.mpr fun c hc => by rw [hnone c hc]; rfl, List.filterMap_eq_nil_iff.mpr hnone⟩

theorem mark (h : ConsistsOf text plain nesting) :
    ConsistsOf (markStart :: (text ++ [markEnd])) plain nesting.nest where
  withoutSentinels_eq := by
    have hs : (sentinel? markStart).isNone = false := rfl
    have he : (sentinel? markEnd).isNone = false := rfl
    rw [withoutSentinels, List.filter_cons_of_neg (by simp [hs]), List.filter_append, ← withoutSentinels, h.1,
      List.filter_cons_of_neg (by simp [he]), List.filter_nil, List.append_nil]
  sentinels_eq := by
    have hs : sentinel? markStart = some .U := rfl
    have he : sentinel? markEnd = some .D := rfl
    rw [sentinels, List.filterMap_cons_some hs, List.filterMap_append, ← sentinels, h.2,
      List.filterMap_cons_some he]
    rfl

theorem between (h : ConsistsOf text plain nesting) (needed : Bool) :
    ConsistsOf (between needed ['('] [')'] text) (between needed ['('] [')'] plain) nesting := by
  cases needed with
  | false => exact h
  | true =>
    have hopen : ConsistsOf ['('] ['('] 0 := of_notMem (by decide) (by decide)
    have hclose : ConsistsOf [')'] [')'] 0 := of_notMem (by decide) (by decide)
    simpa using (hopen.append h).append hclose

end ConsistsOf

namespace Expr

/-! ## Applications to several arguments -/

/-- What is applied in an application to any number of arguments. -/
def head : Expr → Expr
  | call function => function.head
  | app function _ => function.head
  | e => e

/-- The arguments of an application, from left to right. -/
def arguments : Expr → List Expr
  | call function => function.arguments
  | app function argument => function.arguments ++ [argument]
  | _ => []

/-- A function applied to a list of arguments, where a function that is an application keeps the arguments it has in
front of them. -/
def applied (function : Expr) (arguments : List Expr) : Expr :=
  apply function.head (function.arguments ++ arguments)

/-- The text of arguments, each behind a blank. -/
def argumentsText (arguments : List Expr) : List Char :=
  arguments.flatMap fun a => ' ' :: (a.render .argument).toList

variable {e f a : Expr} {as bs : List Expr}

theorem apply_concat (f : Expr) (as : List Expr) (a : Expr) : apply f (as ++ [a]) = app (as.foldl app f) a := by
  cases as with
  | nil => rfl
  | cons b as => simp [apply]

theorem head_foldl (f : Expr) (as : List Expr) : (as.foldl app f).head = f.head := by
  induction as generalizing f with
  | nil => rfl
  | cons a as ih => exact ih (app f a)

theorem arguments_foldl (f : Expr) (as : List Expr) : (as.foldl app f).arguments = f.arguments ++ as := by
  induction as generalizing f with
  | nil => simp
  | cons a as ih =>
    rw [List.foldl_cons, ih (app f a), arguments, List.append_assoc]
    rfl

theorem head_apply (f : Expr) (as : List Expr) : (apply f as).head = f.head := by
  cases as with
  | nil => rfl
  | cons a as => exact head_foldl f (a :: as)

theorem arguments_apply (f : Expr) (as : List Expr) : (apply f as).arguments = f.arguments ++ as := by
  cases as with
  | nil => simp [apply, arguments]
  | cons a as => exact arguments_foldl f (a :: as)

theorem head_head (e : Expr) : e.head.head = e.head := by
  induction e with
  | call f ih | app f a ih => exact ih
  | _ => rfl

theorem arguments_head (e : Expr) : e.head.arguments = [] := by
  induction e with
  | call f ih | app f a ih => exact ih
  | _ => rfl

/-- Arguments given one after the other are given all at once. -/
theorem applied_applied (f : Expr) (as bs : List Expr) : (f.applied as).applied bs = f.applied (as ++ bs) := by
  simp only [applied, head_apply, arguments_apply, head_head, arguments_head, List.nil_append, List.append_assoc]

/-! ## Their texts -/

theorem toList_render_foldl (f : Expr) (as : List Expr) :
    ((as.foldl app f).render .function).toList = (f.render .function).toList ++ argumentsText as := by
  induction as generalizing f with
  | nil => simp [argumentsText]
  | cons a as ih =>
    rw [List.foldl_cons, ih (app f a), argumentsText, argumentsText, List.flatMap_cons, render,
      Term.toList_parenthesized]
    simp

/-- **The arguments of an application stand behind its head**, with or without any of them. -/
theorem toList_render_apply (f : Expr) (as : List Expr) (position : Position) :
    ((apply f as).render position).toList =
      between (decide (position = .argument)) ['('] [')'] ((f.render .function).toList ++ argumentsText as) := by
  rcases List.eq_nil_or_concat as with rfl | ⟨as, a, rfl⟩
  · rw [apply, render, Term.toList_parenthesized]
    simp [argumentsText]
  · rw [List.concat_eq_append, apply_concat, render, Term.toList_parenthesized, String.toList_append,
      String.toList_append, toList_render_foldl]
    simp [argumentsText]

/-- A function that is an application stands with the arguments it has. -/
theorem toList_render_function (f : Expr) :
    (f.render .function).toList = (f.head.render .function).toList ++ argumentsText f.arguments := by
  induction f with
  | call f ih =>
    rw [render, Term.toList_parenthesized]
    exact ih
  | app f a ih =>
    rw [render, Term.toList_parenthesized, head, arguments, argumentsText, List.flatMap_append, ← argumentsText]
    simp [ih]
  | _ => simp [head, arguments, argumentsText]

/-- Where the arguments of an application come from does not show. -/
theorem render_applied (f : Expr) (as : List Expr) (position : Position) :
    (f.applied as).render position = (apply f as).render position := by
  rw [← String.toList_inj, applied, toList_render_apply, toList_render_apply, toList_render_function f, argumentsText,
    List.flatMap_append, ← argumentsText, ← argumentsText, List.append_assoc]

/-! ## Expressions without marks -/

/-- An expression built anew without its marks. -/
def unmarked : Expr → Expr
  | name text => name text
  | signature pattern type => signature pattern.unmarked type.unmarked
  | lambda pattern body => lambda pattern.unmarked body.unmarked
  | call function => function.unmarked.applied []
  | app function argument => function.unmarked.applied [argument.unmarked]
  | mark expr => expr.unmarked
  | arrow domain codomain => arrow domain.unmarked codomain.unmarked

/-- The marks of an expression, a pair of brackets for each. -/
def nesting : Expr → DyckWord
  | name _ => 0
  | signature pattern type => pattern.nesting + type.nesting
  | lambda pattern body => pattern.nesting + body.nesting
  | call function => function.nesting
  | app function argument => function.nesting + argument.nesting
  | mark expr => expr.nesting.nest
  | arrow domain codomain => domain.nesting + codomain.nesting

/-- The texts of the names in an expression. -/
def texts : Expr → List String
  | name text => [text]
  | signature pattern type => pattern.texts ++ type.texts
  | lambda pattern body => pattern.texts ++ body.texts
  | call function => function.texts
  | app function argument => function.texts ++ argument.texts
  | mark expr => expr.texts
  | arrow domain codomain => domain.texts ++ codomain.texts

/-- No name holds a sentinel. -/
def Unsealed (e : Expr) : Prop := ∀ x ∈ e.texts, markStart ∉ x.toList ∧ markEnd ∉ x.toList

theorem unmarked_foldl (f : Expr) (a : Expr) (as : List Expr) :
    ((a :: as).foldl app f).unmarked = f.unmarked.applied ((a :: as).map unmarked) := by
  induction as generalizing f a with
  | nil => rfl
  | cons b as ih =>
    rw [List.foldl_cons, ih (app f a) b, unmarked, applied_applied]
    rfl

theorem unmarked_apply (f : Expr) (as : List Expr) : (apply f as).unmarked = f.unmarked.applied (as.map unmarked) := by
  cases as with
  | nil => rfl
  | cons a as => exact unmarked_foldl f a as

theorem nesting_foldl (f : Expr) (as : List Expr) :
    (as.foldl app f).nesting = f.nesting + (as.map nesting).sum := by
  induction as generalizing f with
  | nil => simp
  | cons a as ih => rw [List.foldl_cons, ih (app f a), nesting, List.map_cons, List.sum_cons, add_assoc]

theorem nesting_apply (f : Expr) (as : List Expr) : (apply f as).nesting = f.nesting + (as.map nesting).sum := by
  cases as with
  | nil => simp [apply, nesting]
  | cons a as => exact nesting_foldl f (a :: as)

theorem nesting_head_add (f : Expr) : f.head.nesting + (f.arguments.map nesting).sum = f.nesting := by
  induction f with
  | call f ih => exact ih
  | app f a ih => simp [head, arguments, nesting, ← ih, add_assoc]
  | _ => simp [head, arguments]

theorem nesting_applied (f : Expr) (as : List Expr) :
    (f.applied as).nesting = f.nesting + (as.map nesting).sum := by
  rw [applied, nesting_apply, List.map_append, List.sum_append, ← add_assoc, nesting_head_add]

/-- What is built anew has no marks. -/
theorem nesting_unmarked (e : Expr) : e.unmarked.nesting = 0 := by
  induction e with
  | name => rfl
  | mark e ih => exact ih
  | _ => simp_all [unmarked, nesting, nesting_applied]

theorem Unsealed.parts (h : ∀ x ∈ e.texts ++ f.texts, markStart ∉ x.toList ∧ markEnd ∉ x.toList) :
    e.Unsealed ∧ f.Unsealed :=
  List.forall_mem_append.mp h

/-- **A text consists of the text without marks and of the marks.** -/
theorem consistsOf_render (he : e.Unsealed) (position : Position) :
    ConsistsOf (e.render position).toList (e.unmarked.render position).toList e.nesting := by
  have fixed : ∀ text : List Char, markStart ∉ text → markEnd ∉ text → ConsistsOf text text 0 :=
    fun text => ConsistsOf.of_notMem
  induction e generalizing position with
  | name text =>
    obtain ⟨hs, he⟩ := he text (by simp [texts])
    exact .of_notMem hs he
  | signature pattern type ihp iht =>
    obtain ⟨hp, ht⟩ := Unsealed.parts he
    simpa [render, unmarked, nesting] using
      ((((fixed ['('] (by decide) (by decide)).append (ihp hp .top)).append
        (fixed " :: ".toList (by decide) (by decide))).append (iht ht .top)).append
        (fixed [')'] (by decide) (by decide))
  | lambda pattern body ihp ihb =>
    obtain ⟨hp, hb⟩ := Unsealed.parts he
    simpa [render, unmarked, nesting, Term.toList_parenthesized] using
      ((((fixed ['\\'] (by decide) (by decide)).append (ihp hp .argument)).append
        (fixed " -> ".toList (by decide) (by decide))).append (ihb hb .top)).between (decide (position ≠ .top))
  | call f ih =>
    simpa [render, unmarked, nesting, render_applied, apply, Term.toList_parenthesized] using
      (ih he .function).between (decide (position = .argument))
  | app f a ihf iha =>
    obtain ⟨hf, ha⟩ := Unsealed.parts he
    simpa [render, unmarked, nesting, render_applied, apply, Term.toList_parenthesized] using
      (((ihf hf .function).append (fixed [' '] (by decide) (by decide))).append (iha ha .argument)).between
        (decide (position = .argument))
  | mark e ih => simpa [render, unmarked, nesting] using (ih he position).mark
  | arrow domain codomain ihd ihc =>
    obtain ⟨hd, hc⟩ := Unsealed.parts he
    simpa [render, unmarked, nesting, Term.toList_parenthesized] using
      (((ihd hd .function).append (fixed " -> ".toList (by decide) (by decide))).append (ihc hc .top)).between
        (decide (position ≠ .top))

/-- **Marks are transparent.**  At every position the text of an expression without the sentinels is the text of the
expression built anew without its marks, although there the arguments of a function that was marked have become
arguments of the application around it.  The sentinels are nested as the marks are, a pair for each. -/
theorem marks_transparent (he : e.Unsealed) (position : Position) :
    withoutSentinels (e.render position).toList = (e.unmarked.render position).toList ∧
      sentinels (e.render position).toList = e.nesting.toList ∧ e.unmarked.nesting = 0 ∧
      ∀ function arguments, (apply function arguments).unmarked =
        apply function.unmarked.head (function.unmarked.arguments ++ arguments.map unmarked) := by
  obtain ⟨htext, hnesting⟩ := consistsOf_render he position
  exact ⟨htext, hnesting, nesting_unmarked e, unmarked_apply⟩

/-- A marked head with a marked argument: three names, two marks, and one application to two arguments without them. -/
theorem marks_transparent_around_head :
    let e := app (mark (app (name "f") (mark (name "a")))) (name "b")
    e.Unsealed ∧ (e.render .argument).toList ≠ (e.unmarked.render .argument).toList ∧
      e.unmarked = apply (name "f") [name "a", name "b"] ∧
      withoutSentinels (e.render .argument).toList = "(f a b)".toList ∧
      sentinels (e.render .argument).toList = [.U, .U, .D, .D] := by
  intro e
  have he : e.Unsealed := by
    intro x hx
    simp only [e, texts, List.cons_append, List.nil_append, List.mem_cons, List.not_mem_nil, or_false] at hx
    rcases hx with rfl | rfl | rfl <;> decide
  obtain ⟨htext, hnesting, -⟩ := marks_transparent he .argument
  exact ⟨he, by decide, rfl, htext, hnesting⟩

end Expr

end SimplyTyped.Layout
