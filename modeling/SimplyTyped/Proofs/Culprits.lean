import Mathlib
import SimplyTyped.Proofs.ExactlyOnce
import SimplyTyped.Proofs.FirstFault
import SimplyTyped.Proofs.Spans

/-!
# SimplyTyped.Proofs.Culprits — a typing fault is shown at the subterm to blame

When a run fails for types, the failure carries the span of the subterm that the checker blames, in the text that is
the line being worked on (`Batch.run_typing`).  That span is where the subterm is printed (`Term.PrintedAt`), so a
report shows the line and draws the pointer below just that part of it, whatever else the line contains.
-/

namespace SimplyTyped

/-! ## A pointer below a line -/

namespace Text

theorem upTo_append_slice_append_fromOn {text : List Char} {a c : Nat} (hac : a ≤ c) (hc : c ≤ text.length) :
    upTo text a ++ slice text a c ++ fromOn text c = text := by
  rw [upTo, slice, fromOn, Term.offset_of_le (hac.trans hc), Term.offset_of_le hc]
  have hmid : (text.drop a).take (c - a) ++ text.drop c = text.drop a := by
    have h := List.take_append_drop (c - a) (text.drop a)
    rwa [List.drop_drop, Nat.add_sub_cancel' hac] at h
  rw [List.append_assoc, hmid, List.take_append_drop]

end Text

/-- A number of blanks. -/
def blanks (n : Nat) : String := String.ofList (List.replicate n ' ')

/-- A caret, and waves up to a width of at least one. -/
def caret (width : Nat) : String := String.ofList ('^' :: List.replicate (width - 1) '~')

theorem length_caret (width : Nat) : (caret width).length = max 1 width := by
  rw [caret, String.length_ofList, List.length_cons, List.length_replicate]
  omega

/-- Without emphasis the line is shown as it is. -/
theorem pointer_plain (emphasis : Emphasis) {line : String} {a c : Nat} (hac : a ≤ c) (hc : c ≤ line.length) :
    pointer .plain emphasis line (a, c) = "  " ++ line ++ "\n" ++ "  " ++ blanks a ++ caret (c - a) := by
  have hchars := Text.upTo_append_slice_append_fromOn hac (by rwa [String.length_toList] : c ≤ line.toList.length)
  have hline : "  " ++ String.ofList (Text.upTo line.toList a) ++ String.ofList (Text.slice line.toList a c) ++
      String.ofList (Text.fromOn line.toList c) = "  " ++ line := by
    rw [String.append_assoc, String.append_assoc, ← String.ofList_append, ← String.ofList_append, ← List.append_assoc,
      hchars, String.ofList_toList]
  have hwaves : ((c : Int) - a - 1).toNat = c - a - 1 := by omega
  unfold pointer blanks caret Style.emphasize Text.repeated
  dsimp only
  rw [hline, hwaves, Int.toNat_natCast]

/-! ## Where a subterm is printed -/

namespace Term

/-- The text of a subterm at a path, as it is rendered where it stands. -/
def shownAt (annotate : Bool) (t : Term) (p : Path) (s : Term) : String :=
  (s.toExpr annotate []).render (t.positionAt .top p)

/-- The subterm at a path is printed from column `a` up to column `c`: what stands on either side of it stays when
another term takes its place. -/
structure PrintedAt (annotate : Bool) (t : Term) (p : Path) (s : Term) (a c : Nat) : Prop where
  subterm : t.at? p = some s
  around : ∃ left right, left.length = a ∧ (left ++ t.shownAt annotate p s).length = c ∧
    t.layout annotate = left ++ t.shownAt annotate p s ++ right ∧
    ∀ u, (t.replaceAt p u).layout annotate = left ++ t.shownAt annotate p u ++ right

variable {annotate : Bool} {t s : Term} {p : Path} {a c : Nat}

theorem PrintedAt.bounds (h : t.PrintedAt annotate p s a c) : a ≤ c ∧ c ≤ (t.layout annotate).length := by
  obtain ⟨left, right, rfl, rfl, hl, -⟩ := h.around
  rw [hl, String.length_append, String.length_append, String.length_append]
  omega

theorem exists_printedAt (annotate : Bool) (ht : t.Unsealed) (hs : t.at? p = some s) :
    ∃ a c : Nat, t.spanAt annotate p = some ((a : Int), (c : Int)) ∧ t.PrintedAt annotate p s a c := by
  have hlayout : ∀ u, (t.replaceAt p u).layout annotate =
      String.ofList (t.before annotate .top p) ++ t.shownAt annotate p u ++
        String.ofList (t.after annotate .top p) := by
    intro u
    rw [← String.toList_inj, String.toList_append, String.toList_append, String.toList_ofList, String.toList_ofList]
    exact text_replaceAt hs u
  refine ⟨_, _, spanAt_eq ht hs, hs, _, _, String.length_ofList, ?_, ?_, hlayout⟩
  · rw [String.length_append, String.length_ofList, shownAt, ← String.length_toList]
    rfl
  · rw [← hlayout, replaceAt_self hs]

end Term

/-! ## The report of a failed run -/

namespace Reporter

/-- No line is there but those of one path. -/
def ShowsOnly (path : String) (r : Reporter) : Prop := ∀ entry ∈ r.entries, entry.path ≠ path → Entry.text? entry = none

theorem current_registerLine {path line : String} {number : Option Int} {r : Reporter} (h : r.ShowsOnly path)
    (hl : line ≠ "") : (r.registerLine path (some line) number).current = some (line, number) := by
  obtain ⟨style, fatal, entries⟩ := r
  have htext : Entry.text? ⟨path, some line, number⟩ = some line := text?_of_ne hl number
  unfold registerLine current
  dsimp only
  induction entries with
  | nil => simp [place, htext]
  | cons entry entries ih =>
    rw [place]
    by_cases he : entry.path = path
    · rw [if_pos he, List.findSome?_cons, htext]
      rfl
    · have hn := h entry List.mem_cons_self he
      rw [if_neg he, List.findSome?_cons, hn]
      exact ih fun entry hm => h entry (List.mem_cons_of_mem _ hm)

/-- A report at a known span shows the line that is worked on. -/
theorem printed_report_of_span {n : Notice} {r : Reporter} {line : String} {number : Option Int} {a c : Nat}
    (hcurrent : r.current = some (line, number)) (hstyle : r.style = .plain)
    (hspan : n.span = some ((a : Int), (c : Int))) (hpointing : n.pointing = true) (hinternal : n.internal = false)
    (hac : a ≤ c) (hc : c ≤ line.length) :
    (report n r).printed =
      r.heading n ++ ("  " ++ line ++ "\n" ++ "  " ++ blanks a ++ caret (c - a) ++ "\n") := by
  have hdiagnosis : r.diagnosis n = pointer r.style .boldRed line (a, c) ++ "\n" := by
    simp [diagnosis, hcurrent, Notice.spanIn, hspan, hpointing, hinternal]
  rw [printed_report, hdiagnosis, hstyle, pointer_plain .boldRed hac hc]

end Reporter

theorem Typing.exists_at_culprit {Γ : Context} {t : Term} {error : Typing.Error} (h : infer Γ t = .error error) :
    ∃ s, t.at? error.culprit = some s := by
  obtain ⟨fault, culprit⟩ := error
  obtain ⟨p, hf, rfl⟩ := infer_eq_error_iff.mp h
  obtain ⟨q, hq, hb⟩ := hf.breaks
  rw [Term.at?_append, hq, Option.bind_some]
  cases hb with
  | unbound | badGuard | branchMismatch | notApplicable | argMismatch => exact ⟨_, rfl⟩

namespace Batch

/-- How a run is known to have failed for the type of a queued term, and where its report points. -/
structure PointsAtCulprit (b : Batch) (error : Typing.Error) (span : Option Span) (number : Int) (t : Term) : Prop where
  check : b.options.check = true
  /-- The term is the first in the queue to fail. -/
  first : ∃ os left, WorksOff b.options b.queue os (some (number, t, .typing error span)) left
  /-- The culprit is what the first fault in the term blames. -/
  blamed : ∃ p, Typing.FirstFault [] t error.fault p ∧ error.culprit = p ++ error.fault.place
  /-- The text of the term is the line being worked on. -/
  registered : (run b).state.reporter =
    b.reporter.registerLine b.path (some (t.layout b.options.annotate)) (some number)
  /-- The span is where the culprit is printed in that line. -/
  spans : t.Unsealed → ∃ s, ∃ a c : Nat, span = some ((a : Int), (c : Int)) ∧
    t.PrintedAt b.options.annotate error.culprit s a c
  /-- A report shows the line, and a caret below the first column of the span that is as wide as the span, or of width
  one. -/
  shown : t.Unsealed → t.layout b.options.annotate ≠ "" → b.reporter.style = .plain → b.reporter.ShowsOnly b.path →
    ∀ a c : Nat, span = some ((a : Int), (c : Int)) →
      (run b).state.reporter.current = some (t.layout b.options.annotate, some number) ∧
      (caret (c - a)).length = max 1 (c - a) ∧
      (Reporter.absorb (.typing error span) (run b).state.reporter).printed =
        (run b).state.reporter.heading { error.fault.notice with span } ++
          ("  " ++ t.layout b.options.annotate ++ "\n" ++ "  " ++ blanks a ++ caret (c - a) ++ "\n")

variable {b : Batch} {error : Typing.Error} {span : Option Span}

/-- **Type errors point at the culprit.** -/
theorem run_points_at_culprit (h : (run b).answer = .error (.typing error span)) :
    ∃ number t, PointsAtCulprit b error span number t := by
  obtain ⟨os, failed, left, hw⟩ := exists_worksOff b.options b.queue
  have hr := run_worked hw
  rw [hr.answer] at h
  obtain _ | ⟨number, t, e⟩ := failed
  · cases h
  obtain rfl : e = .typing error span := Except.error.inj h
  refine ⟨number, t, ?_⟩
  have hreg := hr.reporter number t _ rfl
  cases fails_of_settle hw.settle_failed with
  | typing hcheck hinfer =>
    obtain ⟨s, hs⟩ := Typing.exists_at_culprit hinfer
    constructor
    case check => exact hcheck
    case first => exact ⟨os, left, hw⟩
    case blamed => exact Typing.infer_eq_error_iff.mp hinfer
    case registered => exact hreg
    case spans =>
      intro ht
      obtain ⟨a, c, hspan, hp⟩ := Term.exists_printedAt b.options.annotate ht hs
      exact ⟨s, a, c, hspan, hp⟩
    case shown =>
      intro ht hne hstyle honly a c hspan
      obtain ⟨a', c', hspan', hp⟩ := Term.exists_printedAt b.options.annotate ht hs
      rw [hspan', Option.some.injEq, Prod.mk.injEq] at hspan
      obtain rfl : a' = a := by omega
      obtain rfl : c' = c := by omega
      have hcurrent : (run b).state.reporter.current = some (t.layout b.options.annotate, some number) := by
        rw [hreg]
        exact Reporter.current_registerLine honly hne
      have hplain : (run b).state.reporter.style = .plain := by
        rw [hreg]
        exact hstyle
      refine ⟨hcurrent, length_caret _, ?_⟩
      rw [Reporter.absorb_of_notice? rfl]
      exact Reporter.printed_report_of_span hcurrent hplain hspan' rfl rfl hp.bounds.1 hp.bounds.2

/-- The name is bound where it first stands in the line, and unbound as an argument. -/
theorem run_points_past_bound_occurrence :
    let b : Batch := ⟨.start .plain false, "terms", ⟨true, true, none, 4⟩,
      [(1, .unit), (2, .app (.abs "y" .bool (.var "y")) (.var "y"))], []⟩
    (run b).answer = .error (.typing ⟨.unbound "y", [1]⟩ (some (20, 21))) ∧
      ∃ number t, PointsAtCulprit b ⟨.unbound "y", [1]⟩ (some (20, 21)) number t := by
  intro b
  have hunit : settle b.options .unit = .ok ⟨.unit, some .unit, .unit, 0⟩ := rfl
  have hspan : (Term.app (.abs "y" .bool (.var "y")) (.var "y")).spanAt true [1] = some (20, 21) := by decide +kernel
  have hculprit : settle b.options (.app (.abs "y" .bool (.var "y")) (.var "y")) =
      .error (.typing ⟨.unbound "y", [1]⟩ (some (20, 21))) := by
    rw [← hspan]
    rfl
  have h : (run b).answer = .error (.typing ⟨.unbound "y", [1]⟩ (some (20, 21))) :=
    (run_worked (.success hunit (.failure hculprit))).answer
  exact ⟨h, run_points_at_culprit h⟩

end Batch

end SimplyTyped
