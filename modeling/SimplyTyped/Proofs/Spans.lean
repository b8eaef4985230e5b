import Mathlib
import SimplyTyped.Proofs.Freshness
import SimplyTyped.Proofs.Rendering

/-!
# SimplyTyped.Proofs.Spans — a subterm is found where it is printed

The span of a subterm is read off the text in which the subterm stands in marks.  Up to the end of the first mark that
text is the text without marks and two sentinels (`marked_of_firstMarked?`), and no sentinel comes from elsewhere when
no name holds one.  So the span of a subterm goes from the length of what stands before it over the length of its own
text (`spanAt_eq`), and what `Located` says of spans is arithmetic on these lengths.
-/

namespace SimplyTyped

open Layout (Position Expr markStart markEnd)

namespace Term

variable {annotate : Bool} {position : Position} {marks : List Path} {t s u : Term} {p q : Path} {i : Nat}

/-! ## Marks -/

theorem occurrences_eq (t : Term) :
    t.occurrences = ([], t) :: (t.children.mapIdx fun i s => underChild i s.occurrences).flatten := by
  cases t <;> simp [occurrences, children]

theorem mem_underChild_iff {occurrences : List (Path × Term)} :
    (p, s) ∈ underChild i occurrences ↔ ∃ q, p = i :: q ∧ (q, s) ∈ occurrences := by
  simp [underChild, eq_comm, and_comm]

theorem mem_occurrences_iff : (p, s) ∈ t.occurrences ↔ t.at? p = some s := by
  induction t using induction_children generalizing p with
  | step t ih =>
    rw [occurrences_eq, List.mem_cons, List.mem_flatten]
    cases p with
    | nil =>
      have hn : ∀ l ∈ t.children.mapIdx fun i s => underChild i s.occurrences, ([], s) ∉ l := by
        intro l hl hs
        obtain ⟨i, hi, rfl⟩ := List.mem_mapIdx.mp hl
        obtain ⟨q, hq, -⟩ := mem_underChild_iff.mp hs
        cases hq
      constructor
      · rintro (h | ⟨l, hl, h⟩)
        · rw [(Prod.mk.inj h).2, at?]
        · exact absurd h (hn l hl)
      · intro h
        exact .inl (by rw [at?] at h; rw [Option.some.inj h])
    | cons i q =>
      rw [at?_cons_eq_some_iff]
      constructor
      · rintro (h | ⟨l, hl, h⟩)
        · cases h
        · obtain ⟨j, hj, rfl⟩ := List.mem_mapIdx.mp hl
          obtain ⟨q', hq, h⟩ := mem_underChild_iff.mp h
          obtain ⟨rfl, rfl⟩ := List.cons.inj hq
          exact ⟨_, List.getElem?_eq_getElem hj, (ih _ (List.getElem_mem hj)).mp h⟩
      · rintro ⟨c, hc, h⟩
        obtain ⟨hi, rfl⟩ := List.getElem?_eq_some_iff.mp hc
        refine .inr ⟨_, List.mem_mapIdx.mpr ⟨i, hi, rfl⟩, mem_underChild_iff.mpr ⟨q, rfl, ?_⟩⟩
        exact (ih _ (List.getElem_mem hi)).mpr h

/-- Marks on no subterm are not seen. -/
theorem marked_of_none (annotate : Bool) (position : Position) (h : ∀ q ∈ marks, t.at? q = none) :
    t.marked annotate position marks = t.text annotate position := by
  induction t using induction_children generalizing marks position with
  | step t ih =>
    have hr : marks.contains [] = false := by
      rw [Bool.eq_false_iff, Ne, List.contains_iff_mem]
      intro hm
      cases h [] hm
    have hc : (t.children.mapIdx fun i s => s.marked annotate (t.childPosition i) (throughChild i marks)) =
        t.children.mapIdx fun i s => s.text annotate (t.childPosition i) := by
      rw [List.mapIdx_eq_mapIdx_iff]
      intro i hi
      refine ih _ (List.getElem_mem hi) _ fun q hq => ?_
      have hn := h _ (mem_throughChild.mp hq)
      rwa [at?, List.getElem?_eq_getElem hi] at hn
    rw [marked_eq, hr, hc, text_eq]
    rfl

/-- The path and the subterm of the first mark, parents before children and left before right. -/
def firstMarked? (marks : List Path) (t : Term) : Option (Path × Term) :=
  t.occurrences.find? fun o => marks.contains o.1

theorem firstMarked?_of_root (h : marks.contains [] = true) : t.firstMarked? marks = some ([], t) := by
  rw [firstMarked?, occurrences_eq]
  exact List.find?_cons_of_pos h

theorem find?_underChild (i : Nat) (s : Term) :
    (underChild i s.occurrences).find? (fun o => marks.contains o.1) =
      (s.firstMarked? (throughChild i marks)).map fun o => (i :: o.1, o.2) := by
  have hc : (fun o : Path × Term => marks.contains o.1) ∘ (fun o : Path × Term => (i :: o.1, o.2)) =
      fun o => (throughChild i marks).contains o.1 := by
    funext o
    rw [Bool.eq_iff_iff, Function.comp_apply, List.contains_iff_mem, List.contains_iff_mem, mem_throughChild]
  rw [firstMarked?, ← hc]
  exact List.find?_map

/-- The first mark below an unmarked root is the first one of the first child that has any. -/
theorem exists_child_of_firstMarked? (hr : marks.contains [] = false) (h : t.firstMarked? marks = some (p, u)) :
    ∃ i c q, t.children[i]? = some c ∧ p = i :: q ∧ c.firstMarked? (throughChild i marks) = some (q, u) ∧
      ∀ j d, j < i → t.children[j]? = some d → d.firstMarked? (throughChild j marks) = none := by
  rw [firstMarked?, occurrences_eq, List.find?_cons_of_neg (by simpa using hr), List.find?_flatten,
    List.findSome?_eq_some_iff] at h
  obtain ⟨l₁, a, l₂, hl, ha, hn⟩ := h
  have hget : ∀ j, (l₁ ++ a :: l₂)[j]? = (t.children[j]?).map fun s => underChild j s.occurrences := by
    intro j
    rw [← hl, List.getElem?_mapIdx]
  have hi := hget l₁.length
  rw [List.getElem?_append_right (Nat.le_refl _), Nat.sub_self, List.getElem?_cons_zero, eq_comm,
    Option.map_eq_some_iff] at hi
  obtain ⟨c, hc, rfl⟩ := hi
  rw [find?_underChild, Option.map_eq_some_iff] at ha
  obtain ⟨⟨q, u'⟩, hq, heq⟩ := ha
  obtain ⟨rfl, rfl⟩ := Prod.mk.inj heq
  refine ⟨_, c, q, hc, rfl, hq, fun j d hj hd => ?_⟩
  have hj' := hget j
  rw [List.getElem?_append_left hj, hd] at hj'
  have hnj := hn _ (List.mem_of_getElem? hj')
  rwa [find?_underChild, Option.map_eq_none_iff] at hnj

theorem firstMarked?_eq_none_iff : t.firstMarked? marks = none ↔ ∀ q ∈ marks, t.at? q = none := by
  rw [firstMarked?, List.find?_eq_none]
  constructor
  · intro h q hq
    rw [Option.eq_none_iff_forall_ne_some]
    intro s hs
    exact h _ (mem_occurrences_iff.mpr hs) (List.contains_iff_mem.mpr hq)
  · rintro h ⟨q, r⟩ ho hq
    have hn := h q (List.contains_iff_mem.mp hq)
    rw [mem_occurrences_iff.mp ho] at hn
    cases hn

theorem size_lt_of_mem_children (h : s ∈ t.children) : s.size < t.size := by
  cases t with
  | unit | bool | var => cases h
  | abs | cond | app =>
    simp only [children, List.mem_cons, List.not_mem_nil, or_false] at h
    simp only [size]
    grind

theorem size_lt_of_at? (h : t.at? (i :: p) = some s) : s.size < t.size := by
  induction p generalizing i t with
  | nil =>
    obtain ⟨c, hc, ⟨⟩⟩ := at?_cons_eq_some_iff.mp h
    exact size_lt_of_mem_children (List.mem_of_getElem? hc)
  | cons j p ih =>
    obtain ⟨c, hc, hs⟩ := at?_cons_eq_some_iff.mp h
    exact (ih hs).trans (size_lt_of_mem_children (List.mem_of_getElem? hc))

/-- **Up to the first mark a text is as without marks**, and so is the text in that mark, provided that all marks are
on one and the same subterm: then none of them is inside another. -/
theorem marked_of_firstMarked? (annotate : Bool) (position : Position) (h : t.firstMarked? marks = some (p, u))
    (hs : ∀ q ∈ marks, ∀ r, t.at? q = some r → r = s) :
    ∃ rest, t.marked annotate position marks =
      t.before annotate position p ++ markStart :: (u.text annotate (t.positionAt position p) ++ markEnd :: rest) := by
  induction t using induction_children generalizing marks position p with
  | step t ih =>
    cases hr : marks.contains [] with
    | true =>
      rw [firstMarked?_of_root hr, Option.some.injEq, Prod.mk.injEq] at h
      obtain ⟨rfl, rfl⟩ := h
      obtain rfl := hs [] (List.contains_iff_mem.mp hr) t rfl
      have hc : (t.children.mapIdx fun i s => s.marked annotate (t.childPosition i) (throughChild i marks)) =
          t.children.mapIdx fun i s => s.text annotate (t.childPosition i) := by
        rw [List.mapIdx_eq_mapIdx_iff]
        intro i hi
        refine marked_of_none annotate _ fun q hq => Option.eq_none_iff_forall_ne_some.mpr fun r hr => ?_
        have hat : t.at? (i :: q) = some r := at?_cons_eq_some_iff.mpr ⟨_, List.getElem?_eq_getElem hi, hr⟩
        obtain rfl := hs _ (mem_throughChild.mp hq) r hat
        exact absurd (size_lt_of_at? hat) (Nat.lt_irrefl _)
      refine ⟨[], ?_⟩
      rw [marked_eq, hr, hc, before, positionAt, text_eq]
      simp
    | false =>
      obtain ⟨i, c, q, hc, rfl, hq, hj⟩ := exists_child_of_firstMarked? hr h
      obtain ⟨rest, hm⟩ := ih c (List.mem_of_getElem? hc) (t.childPosition i) hq fun q' hq' r hr' =>
        hs _ (mem_throughChild.mp hq') r (at?_cons_eq_some_iff.mpr ⟨c, hc, hr'⟩)
      have hleft :
          ((t.children.take i).mapIdx fun j s => s.marked annotate (t.childPosition j) (throughChild j marks)) =
            (t.children.take i).mapIdx fun j s => s.text annotate (t.childPosition j) := by
        rw [List.mapIdx_eq_mapIdx_iff]
        intro j hj'
        rw [List.length_take, Nat.lt_min] at hj'
        rw [List.getElem_take]
        exact marked_of_none annotate _ (firstMarked?_eq_none_iff.mp (hj j _ hj'.1 (List.getElem?_eq_getElem hj'.2)))
      rw [marked_eq, hr, mapIdx_of_getElem? hc, intercalate_append_cons, hm, hleft, before_cons hc, positionAt_cons hc,
        beforeChild]
      cases t.needsParens position <;> simp

/-! ## Texts without sentinels -/

/-- The characters that stand around what is marked. -/
def IsSentinel (c : Char) : Prop := c = markStart ∨ c = markEnd

/-- No name holds a sentinel. -/
def Unsealed (t : Term) : Prop := ∀ x ∈ t.names, markStart ∉ x.toList ∧ markEnd ∉ x.toList

variable {c : Char}

theorem notMem_between {needed : Bool} {before after text : List Char} (hb : c ∉ before) (ha : c ∉ after)
    (ht : c ∉ text) : c ∉ between needed before after text := by
  cases needed <;> simp [*]

theorem notMem_intercalate {sep : List Char} {xs : List (List Char)} (hs : c ∉ sep) (hx : ∀ x ∈ xs, c ∉ x) :
    c ∉ sep.intercalate xs := by
  induction xs with
  | nil => simp [List.intercalate]
  | cons x xs ih =>
    cases xs with
    | nil => simpa [List.intercalate] using hx
    | cons y ys =>
      rw [List.intercalate_cons_cons]
      have h := ih fun x hm => hx x (List.mem_cons_of_mem _ hm)
      simp [hs, h, hx x]

theorem notMem_toExpr_ty (hc : IsSentinel c) (ty : Ty) (position : Position) :
    c ∉ (ty.toExpr.render position).toList := by
  induction ty generalizing position with
  | unit | bool => rcases hc with rfl | rfl <;> simp [Ty.toExpr, Expr.render, markStart, markEnd]
  | arrow d e ihd ihe =>
    have hd := ihd .function
    have he := ihe .top
    by_cases hp : position = .top
    · rcases hc with rfl | rfl <;> simp_all [Ty.toExpr, Expr.render, Layout.parenthesized, markStart, markEnd]
    · rcases hc with rfl | rfl <;> simp_all [Ty.toExpr, Expr.render, Layout.parenthesized, markStart, markEnd]

theorem notMem_lead (hc : IsSentinel c) (ht : t.Unsealed) : c ∉ t.lead annotate := by
  cases t with
  | unit | cond | app => rcases hc with rfl | rfl <;> simp [lead, markStart, markEnd]
  | bool p => rcases hc with rfl | rfl <;> cases p <;> simp [lead, markStart, markEnd]
  | var x =>
    have hx := ht x (by simp [names])
    rcases hc with rfl | rfl
    · exact hx.1
    · exact hx.2
  | abs x ty body =>
    have hx := ht x (by simp [names])
    have hty := notMem_toExpr_ty hc ty .top
    cases annotate <;> rcases hc with rfl | rfl <;> simp_all [lead, pattern, Expr.render, markStart, markEnd]

theorem Unsealed.child (ht : t.Unsealed) (hs : s ∈ t.children) : s.Unsealed := by
  intro x hx
  refine ht x ?_
  cases t <;> simp [children] at hs <;> simp [names] <;> grind

theorem notMem_text (annotate : Bool) (position : Position) (hc : IsSentinel c) (ht : t.Unsealed) :
    c ∉ t.text annotate position := by
  induction t using induction_children generalizing position with
  | step t ih =>
    have hfix : c ∉ ['('] ∧ c ∉ [')'] ∧ c ∉ [' '] := by rcases hc with rfl | rfl <;> decide
    rw [text_eq]
    refine notMem_between hfix.1 hfix.2.1 ?_
    rw [List.mem_append, not_or]
    refine ⟨notMem_lead hc ht, notMem_intercalate hfix.2.2 fun x hx => ?_⟩
    obtain ⟨i, hi, rfl⟩ := List.mem_mapIdx.mp hx
    exact ih _ (List.getElem_mem hi) _ (ht.child (List.getElem_mem hi))

theorem find?_of_notMem {before : List Char} (after : List Char) (h : c ∉ before) :
    Text.find? [c] (before ++ c :: after) = some before.length := by
  induction before with
  | nil => simp [Text.find?]
  | cons d before ih =>
    rw [List.mem_cons, not_or] at h
    simp [Text.find?, ih h.2, h.1]

theorem find?_eq_none {text : List Char} (h : c ∉ text) : Text.find? [c] text = none := by
  induction text with
  | nil => rfl
  | cons d text ih =>
    rw [List.mem_cons, not_or] at h
    simp [Text.find?, ih h.2, h.1]

/-! ## Spans -/

/-- The span of the first mark, when all marks are on one and the same subterm. -/
theorem firstSpan_of_firstMarked? (ht : t.Unsealed) (h : t.firstMarked? marks = some (p, u))
    (hs : ∀ q ∈ marks, ∀ r, t.at? q = some r → r = s) :
    t.firstSpan annotate marks =
      some (((t.before annotate .top p).length : Int),
        (((t.before annotate .top p).length + (u.text annotate (t.positionAt .top p)).length : Nat) : Int)) := by
  obtain ⟨rest, hm⟩ := marked_of_firstMarked? annotate .top h hs
  have hu : t.at? p = some u := mem_occurrences_iff.mp (List.mem_of_find?_eq_some h)
  have htext := text_eq_at annotate .top hu
  have hpart : ∀ c, IsSentinel c → c ∉ t.before annotate .top p ∧ c ∉ u.text annotate (t.positionAt .top p) := by
    intro c hc
    have h := notMem_text annotate .top hc ht
    rw [htext, List.mem_append, List.mem_append, not_or, not_or] at h
    exact h.1
  have hend : markEnd ∉ markStart :: u.text annotate (t.positionAt .top p) := by
    rw [List.mem_cons, not_or]
    exact ⟨by decide, (hpart _ (.inr rfl)).2⟩
  have hs := find?_of_notMem (u.text annotate (t.positionAt .top p) ++ markEnd :: rest) (hpart _ (.inl rfl)).1
  have he := find?_of_notMem rest hend
  rw [firstSpan, show ((t.toExpr annotate marks).render .top).toList = t.marked annotate .top marks from rfl, hm,
    markedSpan?, hs]
  simp only [List.drop_left]
  rw [← List.cons_append, he]
  simp
  omega

theorem firstSpan_of_none (ht : t.Unsealed) (h : t.firstMarked? marks = none) : t.firstSpan annotate marks = none := by
  have hm := marked_of_none annotate .top (firstMarked?_eq_none_iff.mp h)
  rw [firstSpan, show ((t.toExpr annotate marks).render .top).toList = t.marked annotate .top marks from rfl, hm,
    markedSpan?, find?_eq_none (notMem_text annotate .top (.inl rfl) ht)]

theorem firstMarked?_singleton (h : t.at? p = some s) : t.firstMarked? [p] = some (p, s) := by
  cases hf : t.firstMarked? [p] with
  | none =>
    rw [firstMarked?_eq_none_iff.mp hf p (List.mem_singleton_self p)] at h
    cases h
  | some o =>
    obtain ⟨q, r⟩ := o
    have hq : q = p := by simpa using List.find?_some hf
    subst hq
    have hr := mem_occurrences_iff.mp (List.mem_of_find?_eq_some hf)
    rw [Option.some.inj (hr.symm.trans h)]

theorem spanAt_eq (ht : t.Unsealed) (h : t.at? p = some s) :
    t.spanAt annotate p =
      some (((t.before annotate .top p).length : Int),
        (((t.before annotate .top p).length + (s.text annotate (t.positionAt .top p)).length : Nat) : Int)) := by
  refine firstSpan_of_firstMarked? (s := s) ht (firstMarked?_singleton h) fun q hq r hr => ?_
  rw [List.mem_singleton.mp hq] at hr
  exact Option.some.inj (hr.symm.trans h)

theorem exists_of_spanAt (ht : t.Unsealed) {span : Span} (h : t.spanAt annotate p = some span) :
    ∃ s, t.at? p = some s := by
  rw [← Option.ne_none_iff_exists']
  intro hn
  have hf : t.firstMarked? [p] = none := firstMarked?_eq_none_iff.mpr fun q hq => List.mem_singleton.mp hq ▸ hn
  rw [spanAt, firstSpan_of_none ht hf] at h
  cases h

theorem offset_of_le {n k : Nat} (h : k ≤ n) : Text.offset n k = k := by
  have hk : ¬(k : Int) < 0 := Int.not_lt.mpr (Int.natCast_nonneg k)
  simp [Text.offset, hk, h]

/-- What the spans of the subterms of a term are. -/
structure Located (annotate : Bool) (t : Term) : Prop where
  /-- A subterm has a span in the text of the term.  It covers the subterm as it is rendered where it stands, and a
  variable in the place of the subterm changes nothing outside the span. -/
  exact : ∀ p s, t.at? p = some s → ∃ a b : Nat,
    t.spanAt annotate p = some ((a : Int), (b : Int)) ∧ a ≤ b ∧ b ≤ (t.layout annotate).length ∧
    t.excerpt annotate (a, b) = (s.toExpr annotate []).render (t.positionAt .top p) ∧
    ∀ x, ((t.replaceAt p (var x)).layout annotate).toList =
      Text.upTo (t.layout annotate).toList a ++ x.toList ++ Text.fromOn (t.layout annotate).toList b
  /-- The span of what lies below a subterm lies within that of the subterm. -/
  nested : ∀ p q a b c d, t.spanAt annotate p = some (a, b) → t.spanAt annotate (p ++ q) = some (c, d) →
    a ≤ c ∧ d ≤ b
  /-- The spans of two children of a subterm are apart, the left one before the right one. -/
  apart : ∀ p i j a b c d, i < j → t.spanAt annotate (p ++ [i]) = some (a, b) →
    t.spanAt annotate (p ++ [j]) = some (c, d) → b < c
  /-- Of several marks on one and the same subterm the first one counts, parents before children and left before
  right. -/
  first : ∀ marks s, (∀ p ∈ marks, ∀ r, t.at? p = some r → r = s) →
    t.firstSpan annotate marks = (t.occurrences.find? fun o => marks.contains o.1).bind fun o => t.spanAt annotate o.1
  /-- Marks on no subterm give no span. -/
  absent : ∀ marks, (∀ p ∈ marks, t.at? p = none) → t.firstSpan annotate marks = none

/-- **A subterm is found exactly where it is printed.** -/
theorem spans_exact (annotate : Bool) (t : Term) (ht : t.Unsealed) : t.Located annotate where
  exact := by
    intro p s hs
    have htext := text_eq_at annotate .top hs
    have hlen := congrArg List.length htext
    simp only [List.length_append] at hlen
    refine ⟨_, _, spanAt_eq ht hs, Nat.le_add_right _ _, ?_, ?_, fun x => ?_⟩
    · rw [← String.length_toList, layout_toList]
      omega
    · rw [excerpt, layout_toList, Text.slice, offset_of_le (by omega), offset_of_le (by omega), htext,
        Nat.add_sub_cancel_left, List.append_assoc, List.drop_left, List.take_left, text, marked, String.ofList_toList]
    · have hupTo : (t.text annotate .top).take (t.before annotate .top p).length = t.before annotate .top p := by
        rw [htext, List.append_assoc, List.take_left]
      have hfromOn : (t.text annotate .top).drop
          ((t.before annotate .top p).length + (s.text annotate (t.positionAt .top p)).length) =
            t.after annotate .top p := by
        rw [htext, ← List.length_append, List.drop_left]
      rw [layout_toList, layout_toList, text_replaceAt hs, Text.upTo, Text.fromOn, offset_of_le (by omega),
        offset_of_le (by omega), hupTo, hfromOn, text_var]
  nested := by
    intro p q a b c d hp hq
    obtain ⟨r, hr⟩ := exists_of_spanAt ht hq
    obtain ⟨s, hs⟩ := exists_of_spanAt ht hp
    have hqs : s.at? q = some r := by rwa [at?_append, hs] at hr
    have hlen := congrArg List.length (text_eq_at annotate (t.positionAt .top p) hqs)
    rw [spanAt_eq ht hs, Option.some.injEq, Prod.mk.injEq] at hp
    rw [spanAt_eq ht hr, Option.some.injEq, Prod.mk.injEq, before_append hs, positionAt_append hs] at hq
    simp only [List.length_append] at hlen hq
    omega
  apart := by
    intro p i j a b c d hij hi hj
    obtain ⟨r, hr⟩ := exists_of_spanAt ht hi
    obtain ⟨r', hr'⟩ := exists_of_spanAt ht hj
    obtain ⟨s, hs, hsr⟩ : ∃ s, t.at? p = some s ∧ s.at? [i] = some r := by
      rwa [at?_append, Option.bind_eq_some_iff] at hr
    have hsr' : s.at? [j] = some r' := by rwa [at?_append, hs] at hr'
    obtain ⟨_, hsr, ⟨⟩⟩ := at?_cons_eq_some_iff.mp hsr
    obtain ⟨_, hsr', ⟨⟩⟩ := at?_cons_eq_some_iff.mp hsr'
    obtain ⟨rest, hrest⟩ := beforeChild_of_lt annotate (t.positionAt .top p) hsr hij
    have hlen := congrArg List.length hrest
    rw [spanAt_eq ht hr, Option.some.injEq, Prod.mk.injEq, before_append hs, positionAt_append hs, before_cons hsr,
      positionAt_cons hsr] at hi
    rw [spanAt_eq ht hr', Option.some.injEq, Prod.mk.injEq, before_append hs, before_cons hsr'] at hj
    simp only [List.length_append, before, positionAt, List.length_nil, List.length_singleton] at hlen hi hj
    omega
  first := by
    intro marks s hs
    cases hf : t.firstMarked? marks with
    | none =>
      rw [firstSpan_of_none ht hf, show t.occurrences.find? _ = none from hf]
      rfl
    | some o =>
      have hu := mem_occurrences_iff.mp (List.mem_of_find?_eq_some hf)
      rw [firstSpan_of_firstMarked? ht hf hs, show t.occurrences.find? _ = some o from hf]
      exact (spanAt_eq ht hu).symm
  absent := by
    intro marks hm
    refine firstSpan_of_none ht (firstMarked?_eq_none_iff.mpr hm)

/-- A conditional is applied, so it stands in parentheses, and its branches bind `x` anew. -/
theorem spans_exact_of_conditional_head :
    (app (cond (var "x") (abs "x" .bool (var "x")) (abs "x" .bool (var "x"))) (app (var "f") (var "x"))).Unsealed ∧
      (app (cond (var "x") (abs "x" .bool (var "x")) (abs "x" .bool (var "x"))) (app (var "f") (var "x"))).Located
        true := by
  have ht : (app (cond (var "x") (abs "x" .bool (var "x")) (abs "x" .bool (var "x")))
      (app (var "f") (var "x"))).Unsealed := by
    simp [Unsealed, names, markStart, markEnd]
  exact ⟨ht, spans_exact true _ ht⟩

end Term

end SimplyTyped
