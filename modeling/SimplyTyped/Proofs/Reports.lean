import Mathlib
import SimplyTyped.Batch

/-!
# SimplyTyped.Proofs.Reports — what a report says, and when it cannot be made

A report of an error prints a heading and, where there is a place for it, the line with a pointer, and then the lines
are forgotten.  It fails in one case only: the notice knows its span, and no line is being worked on, or an empty one
(`Reporter.Lost`).  The failures that come from reading a line know no span; a span is known for typing faults only.
A warning prints as much and changes nothing (`Reporter.warn_eq`).
-/

namespace SimplyTyped

namespace Reporter

/-- The lines that an error report begins with. -/
def heading (n : Notice) (r : Reporter) : String :=
  r.trace ++ (if n.internal then r.style.emphasize .boldRed "[internal] " else "")
    ++ r.style.emphasize .boldRed "error: " ++ n.styledMessage r.style ++ "\n"

/-- The line with a pointer that follows, when a pointer is asked for and there is a place for it. -/
def diagnosis (n : Notice) (r : Reporter) : String :=
  match r.current.map Prod.fst, n.spanIn (r.current.map Prod.fst) with
  | some line, some span => if n.pointing && !n.internal then pointer r.style .boldRed line span ++ "\n" else ""
  | _, _ => ""

/-- A pointer is asked for at a known span, and there is no line to point into. -/
def Lost (n : Notice) (r : Reporter) : Prop :=
  n.span ≠ none ∧ n.pointing = true ∧ n.internal = false ∧ r.current = none

variable {n : Notice} {r : Reporter}

theorem report_of_lost (h : r.Lost n) : report n r = ⟨r, r.heading n, .error (.mishap .noLine)⟩ := by
  obtain ⟨hs, hp, hi, hc⟩ := h
  obtain ⟨span, hspan⟩ := Option.ne_none_iff_exists'.mp hs
  unfold report heading
  simp [Action.get_bind, Action.print_bind, Action.fail_bind, hc, Notice.spanIn, hspan, hp, hi]

/-- A report that is made prints its heading and diagnosis; with a fatal reporter the program ends then. -/
theorem report_eq_of_not_lost (h : ¬r.Lost n) :
    report n r = ⟨if r.fatal then r else r.forgetLines, r.heading n ++ r.diagnosis n,
      if r.fatal then .error (.exit (.int 1)) else .ok ()⟩ := by
  have hend : (if r.fatal = true then Action.fail (.exit (.int 1)) >>= fun _ : Unit => Action.modify forgetLines
      else Action.modify forgetLines : Action Reporter Unit) r =
        ⟨if r.fatal then r else r.forgetLines, "", if r.fatal then .error (.exit (.int 1)) else .ok ()⟩ := by
    cases hr : r.fatal with
    | false => rfl
    | true => exact Action.fail_bind _ _ r
  unfold report heading diagnosis
  rw [Action.get_bind, Action.print_bind]
  cases hl : r.current.map Prod.fst with
  | none =>
    have hp : n.span ≠ none → (n.pointing && !n.internal) = false := by
      intro hs
      by_contra hp
      obtain ⟨hp, hi⟩ : n.pointing = true ∧ n.internal = false := by simpa using hp
      exact h ⟨hs, hp, hi, by simpa using hl⟩
    cases hs : n.span with
    | none => simp [Notice.spanIn, hs, hend]
    | some span => simp [Notice.spanIn, hs, hp (by simp [hs]), hend]
  | some line =>
    cases hs : n.spanIn (some line) with
    | none => simp [hend]
    | some span =>
      cases hp : n.pointing && !n.internal with
      | false => simp [hend]
      | true => simp [hend, Action.print_bind]

theorem report_of_not_lost (hr : r.fatal = false) (h : ¬r.Lost n) :
    report n r = ⟨r.forgetLines, r.heading n ++ r.diagnosis n, .ok ()⟩ := by
  rw [report_eq_of_not_lost h, hr]
  rfl

/-- A report prints a heading and a diagnosis, also where it fails behind the heading. -/
theorem printed_report (n : Notice) (r : Reporter) : (report n r).printed = r.heading n ++ r.diagnosis n := by
  by_cases h : r.Lost n
  · have hd : r.diagnosis n = "" := by
      unfold diagnosis
      rw [h.2.2.2]
      rfl
    rw [report_of_lost h, hd, String.append_empty]
  · rw [report_eq_of_not_lost h]

theorem style_report (n : Notice) (r : Reporter) : (report n r).state.style = r.style := by
  by_cases h : r.Lost n
  · rw [report_of_lost h]
  · rw [report_eq_of_not_lost h]
    cases r.fatal with
    | false => rfl
    | true => rfl

/-- The line with a pointer that follows a warning. -/
def hint (n : Notice) (r : Reporter) : String :=
  match r.current.map Prod.fst, n.spanIn (r.current.map Prod.fst) with
  | some line, some span => if n.pointing && !n.internal then pointer r.style .boldMagenta line span ++ "\n" else ""
  | _, _ => ""

/-- The text of a warning. -/
def caution (n : Notice) (r : Reporter) : String :=
  r.style.emphasize .bold ((r.entries.head?.map Entry.path).getD "<stlc>" ++ ":" ++
      numberText (r.current.bind Prod.snd) ++ ":" ++
      (((n.spanIn (r.current.map Prod.fst)).map Prod.fst).getD 0).repr ++ ": ")
    ++ r.style.emphasize .boldMagenta "warning: " ++ n.styledMessage r.style ++ "\n" ++ r.hint n

/-- A warning only prints. -/
theorem warn_eq (n : Notice) (r : Reporter) : warn n r = ⟨r, r.caution n, .ok ()⟩ := by
  unfold warn caution hint
  rw [Action.get_bind]
  simp only [Action.print_bind]
  cases r.current.map Prod.fst with
  | none => cases n.spanIn none <;> simp
  | some line =>
    cases n.spanIn (some line) with
    | none => simp
    | some span => cases n.pointing && !n.internal <;> simp [Action.print]

theorem absorb_of_notice? {e : Failure} (h : e.notice? = some n) : absorb e = report n := by
  cases e with
  | mishap | exit | outOfFuel => cases h
  | _ =>
    obtain rfl := Option.some.inj h
    rfl

/-! ## The lines that are known -/

/-- The reporter knows one path. -/
def Knows (path : String) (r : Reporter) : Prop := r.entries.map Entry.path = [path]

theorem registerLine_of_knows {path : String} {r : Reporter} (h : r.Knows path) (line : Option String)
    (number : Option Int) : r.registerLine path line number = { r with entries := [⟨path, line, number⟩] } := by
  obtain ⟨e, he, rfl⟩ := List.map_eq_singleton_iff.mp h
  simp [registerLine, he, place]

theorem Knows.forgetLines {path : String} {r : Reporter} (h : r.Knows path) : r.forgetLines.Knows path :=
  (paths_forgetLines r).trans h

/-- A line that is not empty can be shown. -/
theorem text?_of_ne {path line : String} (h : line ≠ "") (number : Option Int) :
    Entry.text? ⟨path, some line, number⟩ = some line := by
  simp [Entry.text?, Option.filter, h]

theorem text?_of_current_eq_none (h : r.current = none) : ∀ entry ∈ r.entries, Entry.text? entry = none := by
  intro entry he
  have hentry := List.findSome?_eq_none_iff.mp h entry he
  simpa using hentry

/-- Without a line nothing is traced. -/
theorem trace_of_current_eq_none (h : r.current = none) : r.trace = "" := by
  have hlines : (r.entries.filterMap fun e => (Entry.text? e).map fun line =>
      "  File '" ++ e.path ++ "', line " ++ numberText e.number ++ ":\n    " ++ line ++ "\n") = [] := by
    rw [List.filterMap_eq_nil_iff]
    intro entry he
    rw [text?_of_current_eq_none h entry he]
    rfl
  unfold trace
  rw [hlines]
  rfl

/-- What a report without a line prints does not depend on anything else that the reporter holds. -/
theorem printed_report_of_current_eq_none {r' : Reporter} (h : r.current = none) (h' : r'.current = none)
    (hs : r.style = r'.style) (n : Notice) : (report n r).printed = (report n r').printed := by
  rw [printed_report, printed_report]
  unfold heading diagnosis
  rw [trace_of_current_eq_none h, trace_of_current_eq_none h', h, h', hs]

/-- After a report there is no line. -/
theorem current_forgetLines (r : Reporter) : r.forgetLines.current = none := by
  simp [current, forgetLines, Entry.text?]

theorem current_eq_none_iff {path : String} {line : String} {number : Option Int} {r : Reporter}
    (h : r.entries = [⟨path, some line, number⟩]) : r.current = none ↔ line = "" := by
  rw [current, h]
  simp [Entry.text?, Option.filter]

end Reporter

namespace Action

variable {σ α : Type} [HasReporter σ] {act : Action σ α} {s : σ}

theorem guarded_of_ok {a : α} (h : (act s).answer = .ok a) :
    guarded act s = ⟨(act s).state, (act s).printed, .ok (some a)⟩ := by
  simp only [guarded, h]

/-- What a guarded action comes to when it fails with a notice. -/
theorem guarded_of_notice? {e : Failure} {n : Notice} (h : (act s).answer = .error e) (hn : e.notice? = some n) :
    guarded act s =
      let r := Reporter.report n (HasReporter.reporter (act s).state)
      ⟨HasReporter.withReporter r.state (act s).state, (act s).printed ++ r.printed, r.answer.map fun _ => none⟩ := by
  simp only [guarded, h, Reporter.absorb_of_notice? hn]
  rfl

end Action

/-! ## Failures and their notices -/

/-- A line holds no term for one of three reasons. -/
theorem termOfLine_eq_error_iff {line : String} {e : Failure} :
    Record.termOfLine line = .error e ↔
      (∃ fault, Json.read line = .error fault ∧ e = .notJson line fault) ∨
      (∃ r fault, Json.read line = .ok r ∧ Record.decode r = .error fault ∧ e = .record fault) ∨
      ∃ r ty, Json.read line = .ok r ∧ Record.decode r = .ok (.type ty) ∧ e = .typeGiven line := by
  rw [Record.termOfLine, Record.ofText]
  cases Json.read line with
  | error fault => simp [eq_comm]
  | ok r => rcases hd : Record.decode r with _ | _ | _ <;> simp [Except.mapError, hd, eq_comm]

theorem notice?_of_termOfLine {line : String} {e : Failure} (h : Record.termOfLine line = .error e) :
    ∃ n, e.notice? = some n ∧ n.span = none := by
  obtain ⟨fault, -, rfl⟩ | ⟨r, fault, -, -, rfl⟩ | ⟨r, ty, -, -, rfl⟩ := termOfLine_eq_error_iff.mp h
  · exact ⟨_, rfl, rfl⟩
  · exact ⟨_, rfl, rfl⟩
  · exact ⟨_, rfl, rfl⟩

theorem typeOf_error {t : Term} {e : Failure} (h : typeOf t = .error e) :
    ∃ error, Typing.infer [] t = .error error ∧ e = .typing error none := by
  unfold typeOf at h
  cases hi : Typing.infer [] t with
  | ok ty => rw [hi] at h; cases h
  | error error =>
    rw [hi] at h
    exact ⟨error, rfl, (Except.error.inj h).symm⟩

theorem termOfLine_empty : ∃ e, Record.termOfLine "" = .error e := ⟨_, rfl⟩

theorem evaluate_error {fuel : Nat} {limit : Option Int} {t : Term} {e : Failure}
    (h : evaluate fuel limit t = .error e) :
    (∃ u, e = .stepLimit u (limit.getD 0)) ∨ e = .outOfFuel := by
  rw [evaluate] at h
  cases hw : ((Machine.start limit).run fuel t).1 with
  | value v => simp [hw, Verdict.toExcept, Except.map] at h
  | exceeded u =>
    simp only [hw, Verdict.toExcept, Except.map, Except.error.injEq] at h
    exact .inl ⟨u, h.symm⟩
  | outOfFuel =>
    simp only [hw, Verdict.toExcept, Except.map, Except.error.injEq] at h
    exact .inr h.symm

end SimplyTyped
