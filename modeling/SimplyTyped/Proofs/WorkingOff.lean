import Mathlib
import SimplyTyped.Proofs.Rendering
import SimplyTyped.Proofs.Reports
import SimplyTyped.Proofs.Soundness

/-!
# SimplyTyped.Proofs.WorkingOff — what queueing a term and working it off come to

An execution leaves the batch as it is, and what it comes to is a function of the options and the term (`outcomeOf`).
From this follow the replies of `add` and `runOne` in full: what is in the queue, among the outcomes, and which line is
being worked on, after success and after failure.  A batch with nothing in it takes one term and gives it back
(`Vacant.add_of_ok`, `Vacant.run_of_ok`, `Vacant.run_of_error`).
-/

namespace SimplyTyped

/-- What each of some things needs fuel for, they all have with enough of it. -/
theorem exists_depth_of_forall {α : Type} {P : Nat → α → Prop}
    (h : ∀ x, ∃ depth, ∀ fuel, depth ≤ fuel → P fuel x) (xs : List α) :
    ∃ depth, ∀ fuel, depth ≤ fuel → ∀ x ∈ xs, P fuel x := by
  induction xs with
  | nil => exact ⟨0, fun fuel _ x hx => absurd hx List.not_mem_nil⟩
  | cons x xs ih =>
    obtain ⟨d, hd⟩ := h x
    obtain ⟨d', hd'⟩ := ih
    refine ⟨max d d', fun fuel hle => ?_⟩
    rw [List.forall_mem_cons]
    exact ⟨hd fuel (by omega), hd' fuel (by omega)⟩

namespace Batch

variable {b : Batch} {line : String} {number : Int} {t : Term} {e : Failure} {o : Outcome}

theorem warn_eq (n : Notice) (b : Batch) :
    (Action.onReporter (Reporter.warn n) : Action Batch Unit) b = ⟨b, b.reporter.caution n, .ok ()⟩ := by
  show (⟨{ b with reporter := (Reporter.warn n b.reporter).state }, (Reporter.warn n b.reporter).printed,
    (Reporter.warn n b.reporter).answer⟩ : Reply Batch Unit) = _
  rw [Reporter.warn_eq]

/-- The type of a term, when types are asked for. -/
def typeUnder (options : Options) (t : Term) : Except Failure (Option Ty) :=
  if options.check then (typeOf t).map some else .ok none

/-- What the execution of a term under options comes to. -/
def outcomeOf (options : Options) (t : Term) : Except Failure Outcome := do
  let ty ← typeUnder options t
  let r ← evaluate options.fuel options.maxSteps t
  return ⟨t, ty, r.1, r.2⟩

/-- The warning about an outcome that is no value. -/
def warningOf (b : Batch) (o : Outcome) : String :=
  if o.value.isValue then ""
  else b.reporter.caution (.quoting (b.format o.value) " is stuck and cannot be reduced to a value")

/-- What an execution prints. -/
def warnings (b : Batch) (t : Term) : String :=
  match outcomeOf b.options t with
  | .ok o => b.warningOf o
  | .error _ => ""

/-- An execution leaves the batch as it is, and what it comes to depends on the options only. -/
theorem execute_eq (t : Term) (b : Batch) : execute t b = ⟨b, b.warnings t, outcomeOf b.options t⟩ := by
  unfold execute warnings outcomeOf
  rw [Action.get_bind]
  change (Action.ofExcept (typeUnder b.options t) >>= _) b = _
  cases typeUnder b.options t with
  | error e => exact Action.ofExcept_error_bind e _ b
  | ok ty =>
    rw [Action.ofExcept_ok_bind]
    cases evaluate b.options.fuel b.options.maxSteps t with
    | error e => exact Action.ofExcept_error_bind e _ b
    | ok r =>
      rw [Action.ofExcept_ok_bind]
      show (if !r.1.isValue then _ else _ : Action Batch Outcome) b = ⟨b, b.warningOf ⟨t, ty, r.1, r.2⟩, _⟩
      unfold warningOf
      cases r.1.isValue with
      | true => rfl
      | false =>
        have hw := warn_eq (.quoting (b.format r.1) " is stuck and cannot be reduced to a value") b
        refine (Action.bind_of_ok (a := ()) (by rw [hw])).trans ?_
        rw [hw]
        simp [bind, Except.bind, pure, Except.pure, Action.done]

theorem warnings_of_error (h : outcomeOf b.options t = .error e) : b.warnings t = "" := by
  rw [warnings, h]

theorem warnings_of_ok (h : outcomeOf b.options t = .ok o) : b.warnings t = b.warningOf o := by
  rw [warnings, h]

theorem mapFailure_execute_eq (f : Failure → Failure) (t : Term) (b : Batch) :
    Action.mapFailure f (execute t) b = ⟨b, b.warnings t, (outcomeOf b.options t).mapError f⟩ := by
  simp only [Action.mapFailure, execute_eq]

theorem add_of_isEmpty (h : (content line).isEmpty = true) (number : Int) (b : Batch) :
    add line number b = ⟨b, "", .ok ()⟩ := by
  simp [add, h]

theorem add_of_error (h : (content line).isEmpty = false) (ht : Record.termOfLine (content line) = .error e)
    (number : Int) (b : Batch) : add line number b = ⟨working (content line) number b, "", .error e⟩ := by
  simp only [add, h, ht, Bool.false_eq_true, if_false]
  rw [Action.modify_bind, Action.ofExcept_error_bind]

/-- A term that is read waits under its number, and no line is worked on any more. -/
theorem add_of_ok (h : (content line).isEmpty = false) (ht : Record.termOfLine (content line) = .ok t)
    (number : Int) (b : Batch) :
    add line number b =
      ⟨idle { working (content line) number b with queue := enqueue number t b.queue }, "", .ok ()⟩ := by
  simp only [add, h, ht, Bool.false_eq_true, if_false]
  rw [Action.modify_bind, Action.ofExcept_ok_bind, Action.modify_bind]
  rfl

/-- A term that fails has left the queue, and its text is the line being worked on. -/
theorem runOne_of_error (h : outcomeOf b.options t = .error e) (number : Int) :
    runOne number t b =
      ⟨{ working (b.format t) number b with queue := dequeue number b.queue }, "",
        .error (withSpan b.options.annotate t e)⟩ := by
  have hm := mapFailure_execute_eq (withSpan b.options.annotate t) t (working (b.format t) number b)
  have h' : outcomeOf (working (b.format t) number b).options t = .error e := h
  rw [warnings_of_error h', h'] at hm
  have ha : ∀ next : Outcome → Action Batch Unit,
      Action.afterwards (Action.mapFailure (withSpan b.options.annotate t) (execute t) >>= next)
          (fun b => { b with queue := dequeue number b.queue }) (working (b.format t) number b) =
        ⟨{ working (b.format t) number b with queue := dequeue number b.queue }, "",
          .error (withSpan b.options.annotate t e)⟩ := by
    intro next
    unfold Action.afterwards
    rw [Action.bind_of_error (e := withSpan b.options.annotate t e) (by rw [hm]; rfl), hm]
    rfl
  unfold runOne
  rw [Action.get_bind, Action.modify_bind, Action.bind_of_error (e := withSpan b.options.annotate t e) (by rw [ha]), ha]

/-- A term that succeeds has left the queue for the outcomes, and no line is worked on any more. -/
theorem runOne_of_ok (h : outcomeOf b.options t = .ok o) (number : Int) :
    runOne number t b =
      ⟨idle { working (b.format t) number b with
          queue := dequeue number b.queue, outcomes := b.outcomes ++ [o] },
        (working (b.format t) number b).warningOf o, .ok ()⟩ := by
  have hm := mapFailure_execute_eq (withSpan b.options.annotate t) t (working (b.format t) number b)
  have h' : outcomeOf (working (b.format t) number b).options t = .ok o := h
  rw [warnings_of_ok h', h'] at hm
  have ha : Action.afterwards
        (do
          let o ← Action.mapFailure (withSpan b.options.annotate t) (execute t)
          Action.modify fun b => { b with outcomes := b.outcomes ++ [o] })
        (fun b => { b with queue := dequeue number b.queue }) (working (b.format t) number b) =
      ⟨{ working (b.format t) number b with
          queue := dequeue number b.queue, outcomes := b.outcomes ++ [o] },
        (working (b.format t) number b).warningOf o, .ok ()⟩ := by
    unfold Action.afterwards
    rw [Action.bind_of_ok (a := o) (by rw [hm]; rfl), hm]
    simp [Action.modify, working]
  unfold runOne
  rw [Action.get_bind, Action.modify_bind, Action.bind_of_ok (a := ()) (by rw [ha]), ha]
  simp [Action.modify]

/-! ## Failures -/

variable {options : Options}

/-- The check fails on a variable alone, which is blamed as a whole. -/
theorem outcomeOf_var (hc : options.check = true) (x : String) :
    outcomeOf options (.var x) = .error (.typing ⟨.unbound x, []⟩ none) := by
  rw [outcomeOf, typeUnder, if_pos hc]
  rfl

theorem typeUnder_error (h : typeUnder options t = .error e) :
    options.check = true ∧ ∃ error, Typing.infer [] t = .error error ∧ e = .typing error none := by
  unfold typeUnder at h
  split_ifs at h with hc
  cases hT : typeOf t with
  | ok T =>
    rw [hT] at h
    cases h
  | error e' =>
    obtain ⟨error, hi, rfl⟩ := typeOf_error hT
    rw [hT] at h
    exact ⟨hc, error, hi, (Except.error.inj h).symm⟩

/-- A term fails for its types, or for its steps, or for want of fuel. -/
theorem outcomeOf_error (h : outcomeOf options t = .error e) :
    (∃ error, options.check = true ∧ e = .typing error none) ∨
      (∃ u limit, e = .stepLimit u limit) ∨ e = .outOfFuel := by
  obtain ht | ⟨ty, -, h⟩ := bind_eq_error_iff.mp h
  · obtain ⟨hc, error, -, rfl⟩ := typeUnder_error ht
    exact .inl ⟨error, hc, rfl⟩
  · obtain he | ⟨r, -, h⟩ := bind_eq_error_iff.mp h
    · obtain ⟨u, rfl⟩ | rfl := evaluate_error he
      · exact .inr (.inl ⟨u, _, rfl⟩)
      · exact .inr (.inr rfl)
    · cases h

/-- The fuel runs out in the evaluation of a term that has passed the check. -/
theorem evaluate_of_outOfFuel (h : outcomeOf options t = .error .outOfFuel) :
    evaluate options.fuel options.maxSteps t = .error .outOfFuel ∧ (options.check = true → ∃ T, typeOf t = .ok T) := by
  obtain ht | ⟨ty, ht, h⟩ := bind_eq_error_iff.mp h
  · obtain ⟨-, error, -, he⟩ := typeUnder_error ht
    cases he
  · obtain he | ⟨r, -, h⟩ := bind_eq_error_iff.mp h
    · refine ⟨he, fun hc => ?_⟩
      rw [typeUnder, if_pos hc] at ht
      cases hT : typeOf t with
      | ok T => exact ⟨T, rfl⟩
      | error e =>
        rw [hT] at ht
        cases ht
    · cases h

theorem notice?_withSpan (ho : outcomeOf options t = .error e) (hf : e ≠ .outOfFuel)
    (annotate : Bool) : ∃ n, (withSpan annotate t e).notice? = some n := by
  obtain ⟨error, -, rfl⟩ | ⟨u, limit, rfl⟩ | rfl := outcomeOf_error ho
  · exact ⟨_, rfl⟩
  · exact ⟨_, rfl⟩
  · exact absurd rfl hf

/-- A term that is checked, or whose steps are bounded, is worked off with fuel enough. -/
theorem exists_depth (h : options.check = true ∨ options.maxSteps ≠ none) (t : Term) :
    ∃ depth, ∀ fuel, depth ≤ fuel → outcomeOf { options with fuel } t ≠ .error .outOfFuel := by
  cases hN : options.maxSteps with
  | some N =>
    refine ⟨0, fun fuel _ ho => ?_⟩
    exact evaluate_ne_outOfFuel N fuel t (evaluate_of_outOfFuel ho).1
  | none =>
    have hcheck : options.check = true := h.resolve_right fun hne => hne hN
    cases hT : typeOf t with
    | error e =>
      refine ⟨0, fun fuel _ ho => ?_⟩
      obtain ⟨T, hT'⟩ := (evaluate_of_outOfFuel ho).2 hcheck
      rw [hT] at hT'
      cases hT'
    | ok T =>
      have ht := typeOf_eq_ok_iff.mp hT
      obtain ⟨n, v, d, he, -⟩ := Term.exists_evaluates_of_hasType (.inl (Term.freeVars_eq_nil_of_hasType ht)) ht
      obtain ⟨depth, hd⟩ := exists_evaluate_of_evaluates he
      refine ⟨depth, fun fuel hle ho => ?_⟩
      have hout : evaluate fuel none t = .error .outOfFuel := (evaluate_of_outOfFuel ho).1
      rw [hd fuel hle] at hout
      cases hout

/-! ## A batch with nothing in it -/

/-- Nothing waits, nothing is left to describe, and reports are about one path and end nothing. -/
structure Vacant (b : Batch) : Prop where
  queue : b.queue = []
  outcomes : b.outcomes = []
  fatal : b.reporter.fatal = false
  knows : b.reporter.Knows b.path

/-- Moreover there is no line to report on. -/
structure Settled (b : Batch) : Prop extends b.Vacant where
  current : b.reporter.current = none

theorem Vacant.report (h : b.Vacant) (n : Notice) :
    ({ b with reporter := (Reporter.report n b.reporter).state } : Batch).Settled := by
  by_cases hl : b.reporter.Lost n
  · rw [Reporter.report_of_lost hl]
    exact ⟨h, hl.2.2.2⟩
  · rw [Reporter.report_of_not_lost h.fatal hl]
    exact ⟨⟨h.queue, h.outcomes, h.fatal, h.knows.forgetLines⟩, Reporter.current_forgetLines _⟩

theorem Settled.start (style : Style) (fatal : Bool) (options : Options) :
    (Batch.start (Reporter.start style fatal) promptPath true options).Settled :=
  ⟨⟨rfl, rfl, rfl, rfl⟩, rfl⟩

/-- The batch with a line of its only path, or none. -/
def showing (line : Option String) (number : Option Int) (b : Batch) : Batch :=
  { b with reporter := { b.reporter with entries := [⟨b.path, line, number⟩] } }

theorem working_eq_showing (h : b.reporter.Knows b.path) (line : String) (number : Int) :
    working line number b = b.showing (some line) (some number) := by
  rw [working, Reporter.registerLine_of_knows h]
  rfl

theorem idle_eq_showing (h : b.reporter.Knows b.path) : idle b = b.showing none none := by
  rw [idle, Reporter.removeLine, Reporter.registerLine_of_knows h]
  rfl

theorem knows_showing (line : Option String) (number : Option Int) (b : Batch) :
    (b.showing line number).reporter.Knows (b.showing line number).path := rfl

theorem Vacant.showing (h : b.Vacant) (line : Option String) (number : Option Int) : (b.showing line number).Vacant :=
  ⟨h.queue, h.outcomes, h.fatal, knows_showing line number b⟩

/-- One term is read into an empty queue. -/
theorem Vacant.add_of_ok (hb : b.Vacant) (h : (content line).isEmpty = false)
    (ht : Record.termOfLine (content line) = .ok t) (number : Int) :
    add line number b = ⟨{ b with queue := [(number, t)] }.showing none none, "", .ok ()⟩ := by
  have hi := idle_eq_showing
    (knows_showing (some (content line)) (some number) { b with queue := [(number, t)] })
  rw [Batch.add_of_ok h ht, working_eq_showing hb.knows, hb.queue]
  exact congrArg (fun b => (⟨b, "", .ok ()⟩ : Reply Batch Unit)) hi

/-- One term is worked off and fails. -/
theorem Vacant.run_of_error (hb : b.Vacant) (h : outcomeOf b.options t = .error e) (number : Int) :
    run ({ b with queue := [(number, t)] }.showing none none) =
      ⟨b.showing (some (b.format t)) (some number), "", .error (withSpan b.options.annotate t e)⟩ := by
  have hr := runOne_of_error (b := { b with queue := [(number, t)] }.showing none none) h number
  rw [working_eq_showing (knows_showing _ _ _)] at hr
  unfold run
  rw [Action.get_bind]
  show (runOne number t >>= fun _ => runAll []) _ = _
  rw [Action.bind_of_error (e := withSpan b.options.annotate t e) (by rw [hr]; rfl), hr]
  obtain ⟨reporter, path, options, queue, outcomes⟩ := b
  obtain rfl : queue = [] := hb.queue
  simp [Batch.showing, dequeue, format]

/-- One term is worked off and succeeds. -/
theorem Vacant.run_of_ok (hb : b.Vacant) (h : outcomeOf b.options t = .ok o) (number : Int) :
    run ({ b with queue := [(number, t)] }.showing none none) =
      ⟨{ b with outcomes := [o] }.showing none none,
        (b.showing (some (b.format t)) (some number)).warningOf o, .ok ()⟩ := by
  have hr := runOne_of_ok (b := { b with queue := [(number, t)] }.showing none none) h number
  unfold run
  rw [Action.get_bind]
  show (runOne number t >>= fun _ => runAll []) _ = _
  rw [Action.bind_of_ok (a := ()) (by rw [hr]), hr, working_eq_showing (knows_showing _ _ _)]
  obtain ⟨reporter, path, options, queue, outcomes⟩ := b
  obtain rfl : queue = [] := hb.queue
  obtain rfl : outcomes = [] := hb.outcomes
  simp [Batch.showing, dequeue, runAll, idle, Reporter.removeLine, Reporter.registerLine, Reporter.place, warningOf,
    format]

/-- What a failed term leaves can be shown unless its text is empty. -/
theorem lost_withSpan_iff {n : Notice} {r : Reporter} {path : String} {number : Option Int}
    (ho : outcomeOf options t = .error e) (annotate : Bool)
    (hn : (withSpan annotate t e).notice? = some n) (hr : r.entries = [⟨path, some (t.layout annotate), number⟩]) :
    r.Lost n ↔ options.check = true ∧ t = .var "" := by
  constructor
  · rintro ⟨hs, -, -, hc⟩
    obtain rfl := Term.layout_eq_empty_iff.mp ((Reporter.current_eq_none_iff hr).mp hc)
    obtain ⟨error, hcheck, rfl⟩ | ⟨u, limit, rfl⟩ | rfl := outcomeOf_error ho
    · exact ⟨hcheck, rfl⟩
    · obtain rfl := Option.some.inj hn
      exact absurd rfl hs
    · cases hn
  · rintro ⟨hcheck, rfl⟩
    rw [outcomeOf_var hcheck] at ho
    obtain rfl := Except.error.inj ho
    obtain rfl := Option.some.inj hn
    refine ⟨?_, rfl, rfl, (Reporter.current_eq_none_iff hr).mpr (Term.layout_eq_empty_iff.mpr rfl)⟩
    show (Term.var "").spanAt annotate [] ≠ none
    cases annotate <;> decide

end Batch

end SimplyTyped
