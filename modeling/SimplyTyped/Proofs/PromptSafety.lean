import Mathlib
import SimplyTyped.Prompt
import SimplyTyped.Proofs.TextForm
import SimplyTyped.Proofs.WorkingOff

/-!
# SimplyTyped.Proofs.PromptSafety — the prompt goes on after every line but one

Between two commands nothing waits, nothing is left to describe and no line is there to report on (`Prompt.Ready`).
Every command keeps this, whatever its line is, and every failure on the way has a notice, so it is reported and the
prompt goes on (`Prompt.Handles`).  The one exception is the check of the variable with the empty name: its text is
empty, so the notice has a span and no line to point into, and the report fails in the middle.
-/

namespace SimplyTyped

namespace Prompt

/-! ## A line that is taken as a term -/

section
variable {α β : Type} {act : Action Batch α} {next : α → Action Prompt β} {b b' : Batch} {printed : String} {a : α}

theorem onBatch_bind (h : act b = ⟨b', printed, .ok a⟩) (n : Int) :
    (onBatch act >>= next) ⟨b, n⟩ =
      ⟨(next a ⟨b', n⟩).state, printed ++ (next a ⟨b', n⟩).printed, (next a ⟨b', n⟩).answer⟩ := by
  have hp : onBatch act ⟨b, n⟩ = ⟨⟨b', n⟩, printed, .ok a⟩ := by
    simp only [onBatch, Action.onPart, h]
  rw [Action.bind_of_ok (a := a) (by rw [hp]), hp]

theorem onBatch_bind_error {e : Failure} (h : act b = ⟨b', printed, .error e⟩) (n : Int) :
    (onBatch act >>= next) ⟨b, n⟩ = ⟨⟨b', n⟩, printed, .error e⟩ := by
  have hp : onBatch act ⟨b, n⟩ = ⟨⟨b', n⟩, printed, .error e⟩ := by
    simp only [onBatch, Action.onPart, h]
  rw [Action.bind_of_error (e := e) (by rw [hp]), hp]

end

variable {b : Batch} {line : String} {t : Term} {e : Failure} {o : Outcome}

theorem runTerm_of_blank (hb : b.Vacant) (h : (Batch.content line).isEmpty = true) (n : Int) :
    runTerm line ⟨b, n⟩ = ⟨⟨b, n + 1⟩, "", .ok ()⟩ := by
  have hr : Batch.run b = ⟨b, "", .ok ()⟩ := by
    unfold Batch.run
    rw [Action.get_bind, hb.queue]
    rfl
  unfold runTerm
  rw [Action.modify_bind, Action.get_bind, onBatch_bind (Batch.add_of_isEmpty h _ _), onBatch_bind hr, Action.get_bind]
  simp [hb.outcomes]

theorem runTerm_of_unread (hb : b.Vacant) (h : (Batch.content line).isEmpty = false)
    (ht : Record.termOfLine (Batch.content line) = .error e) (n : Int) :
    runTerm line ⟨b, n⟩ = ⟨⟨b.showing (some (Batch.content line)) (some (n + 1)), n + 1⟩, "", .error e⟩ := by
  have ha := Batch.add_of_error h ht (n + 1) b
  rw [Batch.working_eq_showing hb.knows] at ha
  unfold runTerm
  rw [Action.modify_bind, Action.get_bind, onBatch_bind_error ha]

theorem runTerm_of_failed (hb : b.Vacant) (h : (Batch.content line).isEmpty = false)
    (ht : Record.termOfLine (Batch.content line) = .ok t) (ho : Batch.outcomeOf b.options t = .error e) (n : Int) :
    runTerm line ⟨b, n⟩ =
      ⟨⟨b.showing (some (b.format t)) (some (n + 1)), n + 1⟩, "",
        .error (Batch.withSpan b.options.annotate t e)⟩ := by
  have ha := hb.add_of_ok h ht (n + 1)
  have hr := hb.run_of_error ho (n + 1)
  unfold runTerm
  rw [Action.modify_bind, Action.get_bind, onBatch_bind ha, onBatch_bind_error hr, String.append_empty]

theorem runTerm_of_done (hb : b.Vacant) (h : (Batch.content line).isEmpty = false)
    (ht : Record.termOfLine (Batch.content line) = .ok t) (ho : Batch.outcomeOf b.options t = .ok o) (n : Int) :
    runTerm line ⟨b, n⟩ =
      ⟨⟨b.showing none none, n + 1⟩,
        (b.showing (some (b.format t)) (some (n + 1))).warningOf o ++ (b.describe o ++ "\n"), .ok ()⟩ := by
  have ha := hb.add_of_ok h ht (n + 1)
  have hr := hb.run_of_ok ho (n + 1)
  have hne : ({ b with outcomes := [o] }.showing none none).outcomes.isEmpty = false := rfl
  have hpop : Batch.pop ({ b with outcomes := [o] }.showing none none) =
      ⟨b.showing none none, "", .ok (b.describe o)⟩ := by
    obtain ⟨reporter, path, options, queue, outcomes⟩ := b
    obtain rfl : outcomes = [] := hb.outcomes
    rfl
  have hlast : (onBatch Batch.pop >>= fun text => Action.print text)
      ⟨{ b with outcomes := [o] }.showing none none, n + 1⟩ =
        ⟨⟨b.showing none none, n + 1⟩, b.describe o ++ "\n", .ok ()⟩ := by
    rw [onBatch_bind hpop]
    simp [Action.print]
  unfold runTerm
  rw [Action.modify_bind, Action.get_bind, onBatch_bind ha, onBatch_bind hr, Action.get_bind]
  simp only [hne, Bool.not_false, if_true, hlast, String.empty_append]

/-! ## Commands under guard -/

theorem printType_eq (text : String) (p : Prompt) :
    printType text p = ⟨p, match Record.termOfLine text >>= typeOf with
      | .ok ty => ty.layout ++ "\n"
      | .error _ => "", (Record.termOfLine text >>= typeOf).map fun _ => ()⟩ := by
  unfold printType
  cases Record.termOfLine text with
  | error e => rw [Action.ofExcept_error_bind]; rfl
  | ok t =>
    rw [Action.ofExcept_ok_bind]
    show (Action.ofExcept (typeOf t) >>= _) p = _
    simp only [bind, Except.bind]
    cases typeOf t with
    | error e => exact Action.ofExcept_error_bind e _ p
    | ok ty => exact Action.ofExcept_ok_bind ty _ p

theorem printTree_eq (text : String) (p : Prompt) :
    printTree text p = ⟨p, match Record.termOfLine text with
      | .ok t => t.tree ++ "\n"
      | .error _ => "", (Record.termOfLine text).map fun _ => ()⟩ := by
  unfold printTree
  cases Record.termOfLine text with
  | error e => exact Action.ofExcept_error_bind e _ p
  | ok t => exact Action.ofExcept_ok_bind t _ p

/-- What a command does under guard. -/
def Command.task? : Command → Option (Action Prompt Unit)
  | .showType text => some (printType text)
  | .showTree text => some (printTree text)
  | .term line => some (runTerm line)
  | _ => none

/-- How the dialogue goes on after a command. -/
def Command.continuation : Command → Continuation
  | .nothing => .nothing
  | .endOfInput | .quit => .leave
  | _ => .proceed

theorem perform_of_task? {c : Command} {task : Action Prompt Unit} (h : c.task? = some task) (p : Prompt) :
    perform c p = ⟨(Action.guarded task p).state, (Action.guarded task p).printed,
      (Action.guarded task p).answer.map fun _ => c.continuation⟩ := by
  have hg : ∀ act : Action Prompt (Option Unit), (act >>= fun _ => pure Continuation.proceed) p =
      ⟨(act p).state, (act p).printed, (act p).answer.map fun _ => Continuation.proceed⟩ := by
    intro act
    cases ha : (act p).answer with
    | error e => rw [Action.bind_of_error ha]; rfl
    | ok a => rw [Action.bind_of_ok ha]; simp [Except.map]
  cases c with
  | showType | showTree | term =>
    obtain rfl := Option.some.inj h
    exact hg _
  | _ => cases h

/-! ## Failures that can be shown -/

/-- Between two commands, under options of which only the printing of types can change. -/
structure Ready (options : Options) (p : Prompt) : Prop where
  settled : p.batch.Settled
  options : ∃ annotate, p.batch.options = { options with annotate }

variable {options : Options} {p : Prompt} {task : Action Prompt Unit}

/-- A task that ends leaves the prompt ready, or fails with a notice and leaves nothing waiting. -/
structure Lands (options : Options) (task : Action Prompt Unit) (p : Prompt) : Prop where
  options : ∃ annotate, (task p).state.batch.options = { options with annotate }
  vacant : (task p).state.batch.Vacant
  settled : (task p).answer = .ok () → (task p).state.batch.Settled
  notice : ∀ e, (task p).answer = .error e → ∃ n, e.notice? = some n

/-- The failure of a task cannot be shown: there is no line to point into. -/
def Breaks (task : Action Prompt Unit) (p : Prompt) : Prop :=
  ∃ e n, (task p).answer = .error e ∧ e.notice? = some n ∧ (task p).state.batch.reporter.Lost n

theorem Lands.ready_guarded (h : Lands options task p) : Ready options (Action.guarded task p).state := by
  cases ha : (task p).answer with
  | ok a =>
    rw [Action.guarded_of_ok ha]
    exact ⟨h.settled ha, h.options⟩
  | error e =>
    obtain ⟨n, hn⟩ := h.notice e ha
    rw [Action.guarded_of_notice? ha hn]
    exact ⟨h.vacant.report n, h.options⟩

theorem Lands.guarded_of_not_breaks (h : Lands options task p) (hb : ¬Breaks task p) :
    ∃ a, (Action.guarded task p).answer = .ok a := by
  cases ha : (task p).answer with
  | ok a =>
    rw [Action.guarded_of_ok ha]
    exact ⟨_, rfl⟩
  | error e =>
    obtain ⟨n, hn⟩ := h.notice e ha
    have hl : ¬(task p).state.batch.reporter.Lost n := fun hl => hb ⟨e, n, ha, hn, hl⟩
    have hr := Reporter.report_of_not_lost h.vacant.fatal hl
    rw [Action.guarded_of_notice? ha hn]
    refine ⟨none, ?_⟩
    rw [show HasReporter.reporter (task p).state = (task p).state.batch.reporter from rfl, hr]
    rfl

theorem guarded_of_breaks (hb : Breaks task p) : (Action.guarded task p).answer = .error (.mishap .noLine) := by
  obtain ⟨e, n, ha, hn, hl⟩ := hb
  have hr := Reporter.report_of_lost hl
  rw [Action.guarded_of_notice? ha hn,
    show HasReporter.reporter (task p).state = (task p).state.batch.reporter from rfl, hr]
  rfl

/-- The report of a failure begins with its heading. -/
theorem Lands.printed_guarded (h : Lands options task p) {e : Failure} (ha : (task p).answer = .error e) :
    ∃ n rest, e.notice? = some n ∧
      (Action.guarded task p).printed = (task p).printed ++ ((task p).state.batch.reporter.heading n ++ rest) := by
  obtain ⟨n, hn⟩ := h.notice e ha
  rw [Action.guarded_of_notice? ha hn]
  show ∃ n' rest, _ ∧ (task p).printed ++ (Reporter.report n (task p).state.batch.reporter).printed = _
  exact ⟨n, _, hn, by rw [Reporter.printed_report]⟩

theorem lands_of_ok {s : Prompt} {printed : String} (h : task p = ⟨s, printed, .ok ()⟩) (hs : Ready options s) :
    Lands options task p ∧ ¬Breaks task p := by
  refine ⟨⟨?_, ?_, fun _ => ?_, fun e he => ?_⟩, ?_⟩
  · rw [h]
    exact hs.options
  · rw [h]
    exact hs.settled.toVacant
  · rw [h]
    exact hs.settled
  · rw [h] at he
    cases he
  · rintro ⟨e, n, he, -⟩
    rw [h] at he
    cases he

theorem lands_of_error {s : Prompt} {printed : String} {e : Failure} {n : Notice}
    (h : task p = ⟨s, printed, .error e⟩) (hn : e.notice? = some n) (hv : s.batch.Vacant)
    (ho : ∃ annotate, s.batch.options = { options with annotate }) :
    Lands options task p ∧ (Breaks task p ↔ s.batch.reporter.Lost n) := by
  refine ⟨⟨?_, ?_, fun hok => ?_, fun e' he => ?_⟩, fun hb => ?_, fun hl => ?_⟩
  · rw [h]
    exact ho
  · rw [h]
    exact hv
  · rw [h] at hok
    cases hok
  · rw [h] at he
    obtain rfl := Except.error.inj he
    exact ⟨n, hn⟩
  · obtain ⟨e', n', he, hn', hl⟩ := hb
    rw [h] at he hl
    obtain rfl := Except.error.inj he
    obtain rfl := Option.some.inj (hn.symm.trans hn')
    exact hl
  · exact ⟨e, n, by rw [h], hn, by rwa [h]⟩

theorem lands_printType (hp : Ready options p) (text : String) :
    Lands options (printType text) p ∧ ¬Breaks (printType text) p := by
  have h := printType_eq text p
  cases hr : Record.termOfLine text >>= typeOf with
  | ok ty =>
    rw [hr] at h
    exact lands_of_ok h hp
  | error e =>
    rw [hr] at h
    obtain ⟨n, hn, hspan⟩ : ∃ n, e.notice? = some n ∧ n.span = none := by
      obtain hr | ⟨t, -, hr⟩ := bind_eq_error_iff.mp hr
      · exact notice?_of_termOfLine hr
      · obtain ⟨error, -, rfl⟩ := typeOf_error hr
        exact ⟨_, rfl, rfl⟩
    obtain ⟨hl, hb⟩ := lands_of_error h hn hp.settled.toVacant hp.options
    exact ⟨hl, fun hbr => (hb.mp hbr).1 hspan⟩

theorem lands_printTree (hp : Ready options p) (text : String) :
    Lands options (printTree text) p ∧ ¬Breaks (printTree text) p := by
  have h := printTree_eq text p
  cases hr : Record.termOfLine text with
  | ok t =>
    rw [hr] at h
    exact lands_of_ok h hp
  | error e =>
    rw [hr] at h
    obtain ⟨n, hn, hspan⟩ := notice?_of_termOfLine hr
    obtain ⟨hl, hb⟩ := lands_of_error h hn hp.settled.toVacant hp.options
    exact ⟨hl, fun hbr => (hb.mp hbr).1 hspan⟩

/-- The line asks for a check of the variable with the empty name. -/
def ChecksEmptyName (options : Options) (line : String) : Prop :=
  options.check = true ∧ Record.termOfLine (Batch.content line) = .ok (.var "")

/-- The fuel is enough for the term on a line. -/
def Fueled (options : Options) (line : String) : Prop :=
  ∀ t, Record.termOfLine (Batch.content line) = .ok t → Batch.outcomeOf options t ≠ .error .outOfFuel

theorem not_checksEmptyName_of_blank {line : String} (h : (Batch.content line).isEmpty = true) :
    ¬ChecksEmptyName options line := by
  rintro ⟨-, ht⟩
  obtain ⟨e, he⟩ := termOfLine_empty
  rw [String.isEmpty_iff.mp h, he] at ht
  cases ht

theorem lands_runTerm (hp : Ready options p) {line : String} (hf : Fueled options line) :
    Lands options (runTerm line) p ∧ (Breaks (runTerm line) p ↔ ChecksEmptyName options line) := by
  obtain ⟨b, number⟩ := p
  obtain ⟨hb, annotate, hopt⟩ := hp
  cases hc : (Batch.content line).isEmpty with
  | true =>
    obtain ⟨hl, hn⟩ := lands_of_ok (runTerm_of_blank hb.toVacant hc number) ⟨hb, annotate, hopt⟩
    exact ⟨hl, iff_of_false hn (not_checksEmptyName_of_blank hc)⟩
  | false =>
    cases ht : Record.termOfLine (Batch.content line) with
    | error e =>
      obtain ⟨n, hn, hspan⟩ := notice?_of_termOfLine ht
      obtain ⟨hl, hiff⟩ := lands_of_error (runTerm_of_unread hb.toVacant hc ht number) hn
        (hb.toVacant.showing _ _) ⟨annotate, hopt⟩
      refine ⟨hl, hiff.trans (iff_of_false (fun hlost => hlost.1 hspan) ?_)⟩
      rintro ⟨-, ht'⟩
      rw [ht] at ht'
      cases ht'
    | ok t =>
      have ho' : Batch.outcomeOf b.options t = Batch.outcomeOf options t := by
        rw [show b.options = _ from hopt]
        rfl
      cases ho : Batch.outcomeOf options t with
      | ok o =>
        have hr := runTerm_of_done hb.toVacant hc ht (ho'.trans ho) number
        obtain ⟨hl, hn⟩ := lands_of_ok hr ⟨⟨hb.toVacant.showing _ _, rfl⟩, annotate, hopt⟩
        refine ⟨hl, iff_of_false hn ?_⟩
        rintro ⟨hcheck, ht'⟩
        obtain rfl := Except.ok.inj (ht.symm.trans ht')
        rw [Batch.outcomeOf_var hcheck] at ho
        cases ho
      | error e =>
        have hne : e ≠ .outOfFuel := fun he => hf t ht (he ▸ ho)
        have hr := runTerm_of_failed hb.toVacant hc ht (ho'.trans ho) number
        obtain ⟨n, hn⟩ := Batch.notice?_withSpan ho hne b.options.annotate
        obtain ⟨hl, hiff⟩ := lands_of_error hr hn (hb.toVacant.showing _ _) ⟨annotate, hopt⟩
        refine ⟨hl, hiff.trans ((Batch.lost_withSpan_iff ho b.options.annotate hn rfl).trans ?_)⟩
        rw [ChecksEmptyName, ht, Except.ok.injEq]

/-! ## Line after line -/

/-- The line is the one that the prompt does not survive: with the check on, the variable with the empty name. -/
def BreaksPrompt (options : Options) (line : String) : Prop :=
  ∃ text, Command.ofLine line = .term text ∧ ChecksEmptyName options text

/-- What a prompt does with a line. -/
structure Handles (options : Options) (line : String) (p : Prompt) : Prop where
  /-- The command returns. -/
  returns : ¬BreaksPrompt options line → (onLine line p).answer = .ok (Command.ofLine line).continuation
  /-- But for the one line where the report itself fails. -/
  breaks : BreaksPrompt options line → (onLine line p).answer = .error (.mishap .noLine)
  /-- Every failure is the user's, and it is reported below the line being worked on. -/
  reports : ∀ task e, (Command.ofLine line).task? = some task → (task p).answer = .error e →
    ∃ n rest, e.notice? = some n ∧
      (onLine line p).printed = (task p).printed ++ ((task p).state.batch.reporter.heading n ++ rest)
  /-- The prompt is ready for the next line. -/
  ready : Ready options (onLine line p).state

theorem handles_of_lands {line : String} (ht : (Command.ofLine line).task? = some task) (h : Lands options task p)
    (hb : Breaks task p ↔ BreaksPrompt options line) : Handles options line p where
  returns := by
    intro hf
    obtain ⟨a, ha⟩ := h.guarded_of_not_breaks (mt hb.mp hf)
    rw [onLine, perform_of_task? ht, ha]
    rfl
  breaks := by
    intro hf
    rw [onLine, perform_of_task? ht, guarded_of_breaks (hb.mpr hf)]
    rfl
  reports := by
    intro task' e ht' he
    obtain rfl := Option.some.inj (ht.symm.trans ht')
    rw [onLine, perform_of_task? ht]
    exact h.printed_guarded he
  ready := by
    rw [onLine, perform_of_task? ht]
    exact h.ready_guarded

/-- A command without a task. -/
theorem handles_of_ok {line : String} {s : Prompt} {printed : String} (ht : (Command.ofLine line).task? = none)
    (hf : ¬BreaksPrompt options line) (h : onLine line p = ⟨s, printed, .ok (Command.ofLine line).continuation⟩)
    (hs : Ready options s) : Handles options line p where
  returns := by
    intro _
    rw [h]
  breaks := fun hf' => absurd hf' hf
  reports := by
    intro task e ht'
    rw [ht] at ht'
    cases ht'
  ready := by
    rw [h]
    exact hs

theorem Ready.toggled (hp : Ready options p) : Ready options p.toggled := by
  obtain ⟨⟨hv, hc⟩, annotate, ho⟩ := hp
  refine ⟨⟨⟨hv.queue, hv.outcomes, hv.fatal, hv.knows⟩, hc⟩, !p.batch.options.annotate, ?_⟩
  show { p.batch.options with annotate := !p.batch.options.annotate } = _
  rw [ho]

theorem Ready.start (style : Style) (fatal : Bool) (options : Options) :
    Ready options (start (Reporter.start style fatal) options) :=
  ⟨.start style fatal options, options.annotate, rfl⟩

theorem Ready.handles (hp : Ready options p) {line : String}
    (hf : ∀ text, Command.ofLine line = .term text → Fueled options text) : Handles options line p := by
  have hno : ∀ c, Command.ofLine line = c → (∀ text, c ≠ .term text) → ¬BreaksPrompt options line := by
    rintro c rfl hc ⟨text, ht, -⟩
    exact hc text ht
  cases hc : Command.ofLine line with
  | showType text =>
    obtain ⟨hl, hb⟩ := lands_printType hp text
    exact handles_of_lands (by rw [hc]; rfl) hl (iff_of_false hb (hno _ hc (by simp)))
  | showTree text =>
    obtain ⟨hl, hb⟩ := lands_printTree hp text
    exact handles_of_lands (by rw [hc]; rfl) hl (iff_of_false hb (hno _ hc (by simp)))
  | term text =>
    obtain ⟨hl, hb⟩ := lands_runTerm hp (hf text hc)
    refine handles_of_lands (by rw [hc]; rfl) hl (hb.trans ?_)
    simp [BreaksPrompt, hc]
  | nothing | help | endOfInput | quit =>
    exact handles_of_ok (by rw [hc]; rfl) (hno _ hc (by simp)) (by rw [onLine, hc]; rfl) hp
  | toggleAnnotations =>
    exact handles_of_ok (by rw [hc]; rfl) (hno _ hc (by simp)) (by rw [onLine, hc]; rfl) hp.toggled

/-- The prompt after lines, whatever became of each. -/
def after (lines : List String) (p : Prompt) : Prompt := lines.foldl (fun p line => (onLine line p).state) p

/-- The fuel is enough for all terms that the line asks to reduce. -/
def Enough (options : Options) (line : String) : Prop := ∀ text, Command.ofLine line = .term text → Fueled options text

theorem Ready.after (hp : Ready options p) {lines : List String} (hf : ∀ line ∈ lines, Enough options line) :
    Ready options (p.after lines) := by
  induction lines generalizing p with
  | nil => exact hp
  | cons line lines ih =>
    rw [List.forall_mem_cons] at hf
    exact ih (hp.handles hf.1).ready hf.2

theorem exists_depth_of_line (h : options.check = true ∨ options.maxSteps ≠ none) (line : String) :
    ∃ depth, ∀ fuel, depth ≤ fuel → Enough { options with fuel } line := by
  by_cases hterm : ∃ text t, Command.ofLine line = .term text ∧ Record.termOfLine (Batch.content text) = .ok t
  · obtain ⟨text, t, hline, ht⟩ := hterm
    obtain ⟨depth, hd⟩ := Batch.exists_depth h t
    refine ⟨depth, fun fuel hle text' hline' t' ht' => ?_⟩
    obtain rfl := Command.term.inj (hline.symm.trans hline')
    obtain rfl := Except.ok.inj (ht.symm.trans ht')
    exact hd fuel hle
  · exact ⟨0, fun fuel _ text hline t ht => absurd ⟨text, t, hline, ht⟩ hterm⟩

theorem exists_depth (h : options.check = true ∨ options.maxSteps ≠ none) (lines : List String) :
    ∃ depth, ∀ fuel, depth ≤ fuel → ∀ line ∈ lines, Enough { options with fuel } line :=
  exists_depth_of_forall (exists_depth_of_line h) lines

/-- **The prompt goes on after every line but one.**  With the check on, or the steps bounded, and fuel enough for the
terms on the lines: after any lines a further line is carried out, its command returns, and a failure on the way is
reported.  The exception is the check of the variable with the empty name, at which the report fails. -/
theorem handles_each_line (style : Style) (fatal : Bool) (options : Options)
    (h : options.check = true ∨ options.maxSteps ≠ none) (lines : List String) (line : String) :
    ∃ depth, ∀ fuel, depth ≤ fuel →
      Handles { options with fuel } line
        ((start (Reporter.start style fatal) { options with fuel }).after lines) := by
  obtain ⟨depth, hd⟩ := exists_depth h (line :: lines)
  refine ⟨depth, fun fuel hle => ?_⟩
  obtain ⟨hline, hlines⟩ := List.forall_mem_cons.mp (hd fuel hle)
  exact ((Ready.start style fatal _).after hlines).handles hline

/-- The line that breaks the prompt. -/
def emptyNameLine : String := "\x7b\"tag\": \"TmVar\", \"contents\": \"\"\x7d"

theorem breaksPrompt_emptyNameLine (hc : options.check = true) : BreaksPrompt options emptyNameLine := by
  have hline : Command.ofLine emptyNameLine = .term emptyNameLine := by decide +kernel
  have hwritten : emptyNameLine = Record.toText (.term (.var "")) := by decide +kernel
  exact ⟨emptyNameLine, hline, hc, by rw [hwritten, Record.content_toText, Record.termOfLine_toText]⟩

/-- The prompt does not survive the variable with the empty name. -/
theorem check_of_empty_name_breaks_prompt :
    (onLine emptyNameLine (start (Reporter.start .plain true) ⟨false, true, none, 1000⟩)).answer =
      .error (.mishap .noLine) := by
  have hready := Ready.start .plain true ⟨false, true, none, 1000⟩
  have hbreaks : BreaksPrompt ⟨false, true, none, 1000⟩ emptyNameLine := breaksPrompt_emptyNameLine rfl
  refine (hready.handles fun text hline t ht ho => ?_).breaks hbreaks
  obtain ⟨text', hline', -, ht'⟩ := hbreaks
  obtain rfl := Command.term.inj (hline.symm.trans hline')
  obtain rfl := Except.ok.inj (ht.symm.trans ht')
  rw [Batch.outcomeOf_var rfl] at ho
  cases ho

/-- With the check on, behind the line that breaks the prompt: a line that is read and then fails its check. -/
theorem handles_each_line_of_check :
    let line := "\x7b\"tag\": \"TmVar\", \"contents\": \"y\"\x7d"
    let prompt (fuel : Nat) : Prompt :=
      (start (Reporter.start .plain true) ⟨false, true, none, fuel⟩).after ["annotate", emptyNameLine]
    (⟨false, true, none, 0⟩ : Options).check = true ∧
      Record.termOfLine (Batch.content line) = .ok (.var "y") ∧
      (∃ path, Typing.infer [] (.var "y") = .error ⟨.unbound "y", path⟩) ∧
      ∃ depth, ∀ fuel, depth ≤ fuel → Handles ⟨false, true, none, fuel⟩ line (prompt fuel) ∧
        (onLine line (prompt fuel)).answer = .ok .proceed := by
  intro line prompt
  have hline : Command.ofLine line = .term line := by decide +kernel
  have hwritten : line = Record.toText (.term (.var "y")) := by decide +kernel
  have hterm : Record.termOfLine (Batch.content line) = .ok (.var "y") := by
    rw [hwritten, Record.content_toText, Record.termOfLine_toText]
  obtain ⟨depth, hd⟩ := handles_each_line .plain true ⟨false, true, none, 0⟩ (.inl rfl) ["annotate", emptyNameLine] line
  refine ⟨rfl, hterm, ⟨[], rfl⟩, depth, fun fuel hle => ⟨hd fuel hle, ?_⟩⟩
  have hreturns := (hd fuel hle).returns
  rw [hline] at hreturns
  refine hreturns ?_
  rintro ⟨text, htext, -, hempty⟩
  obtain rfl := Command.term.inj (hline.symm.trans htext)
  exact absurd (Term.var.inj (Except.ok.inj (hterm.symm.trans hempty))) (by decide)

end Prompt

end SimplyTyped
