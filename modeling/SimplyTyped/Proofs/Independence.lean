import Mathlib
import SimplyTyped.Proofs.PromptSafety

/-!
# SimplyTyped.Proofs.Independence — what a command prints owes nothing to the commands before it

Between two commands a prompt is at rest (`Prompt.Rests`): it holds its options, the count of the lines taken as terms,
and nothing else that a report or an outcome could show.  So a command prints what it prints at a new prompt with these
options and this count.  The count is only in the reports of errors and warnings, in one place: a command prints a form
in which the number is filled in (`Prompt.exists_form`).
-/

namespace SimplyTyped

/-- A text with a place for a number, or without one. -/
structure Form where
  left : String
  /-- What comes after the number. -/
  right : Option String

namespace Form

/-- The text with a number in its place. -/
def fill (f : Form) (number : Int) : String :=
  match f.right with
  | none => f.left
  | some right => f.left ++ number.repr ++ right

/-- A text without a number. -/
def ofText (text : String) : Form := ⟨text, none⟩

/-- The form with a text behind it. -/
def append (f : Form) (text : String) : Form :=
  match f.right with
  | none => ⟨f.left ++ text, none⟩
  | some right => ⟨f.left, some (right ++ text)⟩

theorem fill_append (f : Form) (text : String) (number : Int) :
    (f.append text).fill number = f.fill number ++ text := by
  obtain ⟨left, right⟩ := f
  cases right with
  | none => rfl
  | some right => simp [fill, append, String.append_assoc]

/-- Emphasis keeps the place of the number. -/
theorem exists_emphasize (style : Style) (emphasis : Emphasis) (left right : String) :
    ∃ form : Form, ∀ number : Int, style.emphasize emphasis (left ++ number.repr ++ right) = form.fill number := by
  cases style with
  | plain => exact ⟨⟨left, some right⟩, fun _ => rfl⟩
  | ansi =>
    refine ⟨⟨emphasis.opening ++ left, some (right ++ "\x1b[0m")⟩, fun number => ?_⟩
    simp [Style.emphasize, fill, String.append_assoc]

end Form

namespace Reporter

variable (style : Style) (path line : String) (n : Notice)

/-- A reporter with one path, at which errors are not fatal. -/
def facing (line : Option String) (number : Option Int) : Reporter := ⟨style, false, [⟨path, line, number⟩]⟩

theorem current_facing_empty (number : Option Int) : (facing style path (some "") number).current = none :=
  (current_eq_none_iff rfl).mpr rfl

theorem current_facing {line : String} (hl : line ≠ "") (number : Option Int) :
    (facing style path (some line) number).current = some (line, number) := by
  simp [current, facing, text?_of_ne hl]

theorem trace_facing {line : String} (hl : line ≠ "") (number : Int) :
    (facing style path (some line) (some number)).trace =
      "  File '" ++ path ++ "', line " ++ number.repr ++ (":\n    " ++ line ++ "\n") := by
  simp [trace, facing, text?_of_ne hl, numberText, String.join, String.append_assoc]

/-- The number of the line being worked on is in one place of a report, where the line is traced. -/
theorem exists_form_report : ∃ form : Form, ∀ number : Int,
    (report n (facing style path (some line) (some number))).printed = form.fill number := by
  by_cases hl : line = ""
  · subst hl
    refine ⟨.ofText (report n (facing style path (some "") none)).printed, fun number => ?_⟩
    exact printed_report_of_current_eq_none (current_facing_empty style path (some number))
      (current_facing_empty style path none) rfl n
  · let rest := (if n.internal then style.emphasize .boldRed "[internal] " else "") ++
      style.emphasize .boldRed "error: " ++ n.styledMessage style ++ "\n" ++
      diagnosis n (facing style path (some line) none)
    refine ⟨⟨"  File '" ++ path ++ "', line ", some (":\n    " ++ line ++ "\n" ++ rest)⟩, fun number => ?_⟩
    have hdiagnosis : diagnosis n (facing style path (some line) (some number)) =
        diagnosis n (facing style path (some line) none) := by
      simp only [diagnosis, current_facing style path hl]
      rfl
    rw [printed_report, heading, trace_facing style path hl, hdiagnosis]
    simp [rest, Form.fill, facing, String.append_assoc]

/-- So it is in a warning. -/
theorem exists_form_caution : ∃ form : Form, ∀ number : Int,
    caution n (facing style path (some line) (some number)) = form.fill number := by
  by_cases hl : line = ""
  · subst hl
    refine ⟨.ofText (caution n (facing style path (some "") none)), fun number => ?_⟩
    simp only [caution, hint, current_facing_empty]
    rfl
  · let column := (((n.spanIn (some line)).map Prod.fst).getD 0).repr
    obtain ⟨form, hform⟩ := Form.exists_emphasize style .bold (path ++ ":") (":" ++ column ++ ": ")
    refine ⟨form.append (style.emphasize .boldMagenta "warning: " ++ n.styledMessage style ++ "\n" ++
      hint n (facing style path (some line) none)), fun number => ?_⟩
    rw [Form.fill_append, ← hform]
    simp only [caution, hint, current_facing style path hl]
    simp [column, facing, numberText, String.append_assoc]

end Reporter

namespace Prompt

/-- What a prompt holds from one command to the next: its options and the number of lines that were taken as terms. -/
structure Holds (style : Style) (options : Options) (count : Int) (p : Prompt) : Prop where
  path : p.batch.path = Batch.promptPath
  style : p.batch.reporter.style = style
  options : p.batch.options = options
  count : p.lineNumber = count

/-- Between two commands nothing waits, nothing is left to describe, and no line is there to report on. -/
structure Rests (style : Style) (options : Options) (count : Int) (p : Prompt) : Prop
    extends Holds style options count p where
  settled : p.batch.Settled

variable {style : Style} {options : Options} {count : Int} {p : Prompt}

theorem Rests.ready (h : Rests style options count p) : Ready options p :=
  ⟨h.settled, options.annotate, h.options⟩

/-- The batch of a prompt with a line, or without one. -/
def desk (style : Style) (options : Options) (line : Option String) (number : Option Int) : Batch :=
  ⟨.facing style Batch.promptPath line number, Batch.promptPath, options, [], []⟩

/-- A prompt at rest takes a line in one way only. -/
theorem Rests.showing_eq (h : Rests style options count p) (line : Option String) (number : Option Int) :
    p.batch.showing line number = desk style options line number := by
  obtain ⟨⟨⟨style', fatal, entries⟩, path, options', queue, outcomes⟩, n⟩ := p
  obtain rfl : style' = style := h.style
  obtain rfl : fatal = false := h.settled.fatal
  obtain rfl : path = Batch.promptPath := h.path
  obtain rfl : options' = options := h.options
  obtain rfl : queue = [] := h.settled.queue
  obtain rfl : outcomes = [] := h.settled.outcomes
  rfl

theorem holds_desk (style : Style) (options : Options) (line : Option String) (number : Option Int) (count : Int) :
    Holds style options count ⟨desk style options line number, count⟩ :=
  ⟨rfl, rfl, rfl, rfl⟩

/-- A prompt at which nothing was done yet, but for the annotations and the count. -/
def anew (style : Style) (options : Options) (count : Int) : Prompt := ⟨desk style options none none, count⟩

theorem rests_anew (style : Style) (options : Options) (count : Int) :
    Rests style options count (anew style options count) :=
  ⟨holds_desk style options none none count, ⟨⟨rfl, rfl, rfl, rfl⟩, rfl⟩⟩

/-! ## A line that is taken as a term -/

section
variable {text : String} {t : Term} {e : Failure} {o : Outcome}

theorem Rests.runTerm_of_blank (h : Rests style options count p) (hc : (Batch.content text).isEmpty = true) :
    runTerm text p = ⟨⟨p.batch, count + 1⟩, "", .ok ()⟩ := by
  obtain ⟨b, n⟩ := p
  obtain rfl : n = count := h.count
  exact Prompt.runTerm_of_blank h.settled.toVacant hc n

theorem Rests.runTerm_of_unread (h : Rests style options count p) (hc : (Batch.content text).isEmpty = false)
    (ht : Record.termOfLine (Batch.content text) = .error e) :
    runTerm text p =
      ⟨⟨desk style options (some (Batch.content text)) (some (count + 1)), count + 1⟩, "", .error e⟩ := by
  have hs := h.showing_eq (some (Batch.content text)) (some (count + 1))
  obtain ⟨b, n⟩ := p
  obtain rfl : n = count := h.count
  rw [← hs]
  exact Prompt.runTerm_of_unread h.settled.toVacant hc ht n

theorem Rests.runTerm_of_failed (h : Rests style options count p) (hc : (Batch.content text).isEmpty = false)
    (ht : Record.termOfLine (Batch.content text) = .ok t) (ho : Batch.outcomeOf options t = .error e) :
    runTerm text p =
      ⟨⟨desk style options (some (t.layout options.annotate)) (some (count + 1)), count + 1⟩, "",
        .error (Batch.withSpan options.annotate t e)⟩ := by
  have hs := h.showing_eq (some (t.layout options.annotate)) (some (count + 1))
  obtain ⟨b, n⟩ := p
  obtain rfl : n = count := h.count
  obtain rfl : b.options = options := h.options
  rw [← hs]
  exact Prompt.runTerm_of_failed h.settled.toVacant hc ht ho n

theorem Rests.runTerm_of_done (h : Rests style options count p) (hc : (Batch.content text).isEmpty = false)
    (ht : Record.termOfLine (Batch.content text) = .ok t) (ho : Batch.outcomeOf options t = .ok o) :
    runTerm text p =
      ⟨⟨desk style options none none, count + 1⟩,
        (desk style options (some (t.layout options.annotate)) (some (count + 1))).warningOf o ++
          ((desk style options none none).describe o ++ "\n"), .ok ()⟩ := by
  have hs := h.showing_eq (some (t.layout options.annotate)) (some (count + 1))
  have hn := h.showing_eq none none
  have hd : (desk style options none none).describe o = p.batch.describe o := by
    simp only [Batch.describe, Batch.format, h.options]
    rfl
  obtain ⟨b, n⟩ := p
  obtain rfl : n = count := h.count
  obtain rfl : b.options = options := h.options
  rw [hd, ← hs, ← hn]
  exact Prompt.runTerm_of_done h.settled.toVacant hc ht ho n

end

/-! ## What a command prints -/

section
variable {task : Action Prompt Unit} {s : Prompt} {printed : String}

theorem printed_guarded_of_ok (h : task p = ⟨s, printed, .ok ()⟩) : (Action.guarded task p).printed = printed := by
  rw [Action.guarded_of_ok (a := ()) (by rw [h]), h]

theorem printed_guarded_of_error {e : Failure} {n : Notice} (h : task p = ⟨s, printed, .error e⟩)
    (hn : e.notice? = some n) :
    (Action.guarded task p).printed = printed ++ (Reporter.report n s.batch.reporter).printed := by
  rw [Action.guarded_of_notice? (e := e) (by rw [h]) hn, h]
  rfl

/-- A task that does not look at a prompt at rest ends for all of them alike, reports included. -/
theorem Rests.printed_guarded_eq {p' : Prompt} {count' : Int} (h : Rests style options count p)
    (h' : Rests style options count' p') {answer : Except Failure Unit} (ht : task p = ⟨p, printed, answer⟩)
    (ht' : task p' = ⟨p', printed, answer⟩) (hn : ∀ e, answer = .error e → ∃ n, e.notice? = some n) :
    (Action.guarded task p).printed = (Action.guarded task p').printed := by
  cases answer with
  | ok a => rw [printed_guarded_of_ok ht, printed_guarded_of_ok ht']
  | error e =>
    obtain ⟨n, hn⟩ := hn e rfl
    rw [printed_guarded_of_error ht hn, printed_guarded_of_error ht' hn]
    have hr := Reporter.printed_report_of_current_eq_none h.settled.current h'.settled.current
      (h.style.trans h'.style.symm) n
    rw [hr]

end

/-- A text that is taken as a term ends with an error or a warning: it is not read, or it fails, or it comes to no
value. -/
def Complains (options : Options) (text : String) : Prop :=
  (Batch.content text).isEmpty = false ∧ ∀ t o, Record.termOfLine (Batch.content text) = .ok t →
    Batch.outcomeOf options t = .ok o → o.value.isValue = false

theorem exists_form_runTerm (style : Style) {text : String} (hf : Fueled options text) :
    ∃ form : Form, (¬Complains options text → form.right = none) ∧
      ∀ count p, Rests style options count p → (Action.guarded (runTerm text) p).printed = form.fill (count + 1) := by
  cases hc : (Batch.content text).isEmpty with
  | true =>
    refine ⟨.ofText "", fun _ => rfl, fun count p hp => ?_⟩
    exact printed_guarded_of_ok (hp.runTerm_of_blank hc)
  | false =>
    cases ht : Record.termOfLine (Batch.content text) with
    | error e =>
      obtain ⟨n, hn, -⟩ := notice?_of_termOfLine ht
      obtain ⟨form, hform⟩ := Reporter.exists_form_report style Batch.promptPath (Batch.content text) n
      refine ⟨form, fun hr => ?_, fun count p hp => ?_⟩
      · refine absurd ⟨hc, fun t o ht' => ?_⟩ hr
        rw [ht] at ht'
        cases ht'
      · rw [printed_guarded_of_error (hp.runTerm_of_unread hc ht) hn, String.empty_append]
        exact hform (count + 1)
    | ok t =>
      cases ho : Batch.outcomeOf options t with
      | error e =>
        obtain ⟨n, hn⟩ := Batch.notice?_withSpan ho (fun he => hf t ht (he ▸ ho)) options.annotate
        obtain ⟨form, hform⟩ := Reporter.exists_form_report style Batch.promptPath (t.layout options.annotate) n
        refine ⟨form, fun hr => ?_, fun count p hp => ?_⟩
        · refine absurd ⟨hc, fun t' o ht' ho' => ?_⟩ hr
          obtain rfl := Except.ok.inj (ht.symm.trans ht')
          rw [ho] at ho'
          cases ho'
        · rw [printed_guarded_of_error (hp.runTerm_of_failed hc ht ho) hn, String.empty_append]
          exact hform (count + 1)
      | ok o =>
        let described := (desk style options none none).describe o ++ "\n"
        cases hv : o.value.isValue with
        | true =>
          refine ⟨.ofText described, fun _ => rfl, fun count p hp => ?_⟩
          rw [printed_guarded_of_ok (hp.runTerm_of_done hc ht ho), Batch.warningOf, if_pos hv, String.empty_append]
          rfl
        | false =>
          obtain ⟨form, hform⟩ := Reporter.exists_form_caution style Batch.promptPath (t.layout options.annotate)
            (.quoting (o.value.layout options.annotate) " is stuck and cannot be reduced to a value")
          refine ⟨form.append described, fun hr => ?_, fun count p hp => ?_⟩
          · refine absurd ⟨hc, fun t' o' ht' ho' => ?_⟩ hr
            obtain rfl := Except.ok.inj (ht.symm.trans ht')
            obtain rfl := Except.ok.inj (ho.symm.trans ho')
            exact hv
          · rw [printed_guarded_of_ok (hp.runTerm_of_done hc ht ho), Batch.warningOf, if_neg (by simp [hv]),
              Form.fill_append, ← hform]
            rfl

theorem printed_onLine_of_task? {line : String} {task : Action Prompt Unit}
    (h : (Command.ofLine line).task? = some task) (p : Prompt) :
    (onLine line p).printed = (Action.guarded task p).printed := by
  rw [onLine, perform_of_task? h]

/-- **A command prints a form that the line and the options decide**, with the count filled in where it complains. -/
theorem exists_form (style : Style) {line : String} (hf : Enough options line) :
    ∃ form : Form, ((∀ text, Command.ofLine line = .term text → ¬Complains options text) → form.right = none) ∧
      ∀ count p, Rests style options count p → (onLine line p).printed = form.fill (count + 1) := by
  -- a command that asks for no term prints what it does at a new prompt
  let new : Prompt := anew style options 0
  have hnew : Rests style options 0 new := rests_anew style options 0
  cases hc : Command.ofLine line with
  | term text =>
    obtain ⟨form, hr, hp⟩ := exists_form_runTerm style (hf text hc)
    refine ⟨form, fun h => hr (h text rfl), fun count p h => ?_⟩
    rw [printed_onLine_of_task? (by rw [hc]; rfl)]
    exact hp count p h
  | showType text =>
    refine ⟨.ofText (Action.guarded (printType text) new).printed, fun _ => rfl, fun count p h => ?_⟩
    rw [printed_onLine_of_task? (by rw [hc]; rfl)]
    refine h.printed_guarded_eq hnew (printType_eq text p) (printType_eq text new) fun e he => ?_
    exact (lands_printType h.ready text).1.notice e (by rw [printType_eq]; exact he)
  | showTree text =>
    refine ⟨.ofText (Action.guarded (printTree text) new).printed, fun _ => rfl, fun count p h => ?_⟩
    rw [printed_onLine_of_task? (by rw [hc]; rfl)]
    refine h.printed_guarded_eq hnew (printTree_eq text p) (printTree_eq text new) fun e he => ?_
    exact (lands_printTree h.ready text).1.notice e (by rw [printTree_eq]; exact he)
  | toggleAnnotations =>
    refine ⟨.ofText (onLine line new).printed, fun _ => rfl, fun count p h => ?_⟩
    have hprinted : ∀ p : Prompt, (onLine line p).printed =
        "annotations " ++ (if !p.batch.options.annotate then "on" else "off") ++ "\n" ++ "" := by
      intro p
      unfold onLine
      rw [hc]
      simp only [perform, Action.modify_bind, Action.get_bind, Action.print_bind]
      rfl
    rw [hprinted, h.options]
    exact (hprinted new).symm
  | nothing | help | endOfInput | quit =>
    refine ⟨.ofText (onLine line new).printed, fun _ => rfl, fun count p _ => ?_⟩
    show (onLine line p).printed = (onLine line new).printed
    unfold onLine
    rw [hc]
    rfl

/-! ## Line after line -/

/-- The options after a command. -/
def Command.optionsAfter (options : Options) : Command → Options
  | .toggleAnnotations => { options with annotate := !options.annotate }
  | _ => options

/-- Whether a line is taken as a term. -/
def Command.isTerm : Command → Bool
  | .term _ => true
  | _ => false

/-- The options after lines. -/
def optionsAfter (options : Options) (lines : List String) : Options :=
  lines.foldl (fun options line => (Command.ofLine line).optionsAfter options) options

/-- The number of lines that are taken as terms. -/
def termLines (lines : List String) : Nat := lines.countP fun line => (Command.ofLine line).isTerm

/-- What a prompt holds after a task it holds after the report on it. -/
theorem Holds.guarded {task : Action Prompt Unit} (hl : Lands options task p)
    (h : Holds style options count (task p).state) : Rests style options count (Action.guarded task p).state := by
  refine ⟨?_, hl.ready_guarded.settled⟩
  cases ha : (task p).answer with
  | ok a =>
    rw [Action.guarded_of_ok ha]
    exact h
  | error e =>
    obtain ⟨n, hn⟩ := hl.notice e ha
    rw [Action.guarded_of_notice? ha hn]
    exact ⟨h.path, (Reporter.style_report n _).trans h.style, h.options, h.count⟩

theorem Rests.runTerm (h : Rests style options count p) {text : String} (hf : Fueled options text) :
    Rests style options (count + 1) (Action.guarded (runTerm text) p).state := by
  have hl := (lands_runTerm h.ready hf).1
  cases hc : (Batch.content text).isEmpty with
  | true =>
    refine Holds.guarded hl ?_
    rw [h.runTerm_of_blank hc]
    exact ⟨h.path, h.style, h.options, rfl⟩
  | false =>
    cases ht : Record.termOfLine (Batch.content text) with
    | error e =>
      refine Holds.guarded hl ?_
      rw [h.runTerm_of_unread hc ht]
      exact holds_desk ..
    | ok t =>
      cases ho : Batch.outcomeOf options t with
      | error e =>
        refine Holds.guarded hl ?_
        rw [h.runTerm_of_failed hc ht ho]
        exact holds_desk ..
      | ok o =>
        refine Holds.guarded hl ?_
        rw [h.runTerm_of_done hc ht ho]
        exact holds_desk ..

/-- **A command leaves a prompt at rest.** -/
theorem Rests.onLine (h : Rests style options count p) {line : String} (hf : Enough options line) :
    Rests style ((Command.ofLine line).optionsAfter options) (count + if (Command.ofLine line).isTerm then 1 else 0)
      (onLine line p).state := by
  have htask : ∀ task, (Command.ofLine line).task? = some task →
      (Prompt.onLine line p).state = (Action.guarded task p).state := by
    intro task ht
    rw [Prompt.onLine, perform_of_task? ht]
  cases hc : Command.ofLine line with
  | term text =>
    rw [htask _ (by rw [hc]; rfl)]
    exact h.runTerm (hf text hc)
  | showType text =>
    rw [htask _ (by rw [hc]; rfl)]
    refine Holds.guarded (lands_printType h.ready text).1 ?_
    rw [printType_eq]
    exact ⟨h.path, h.style, h.options, h.count.trans (Int.add_zero count).symm⟩
  | showTree text =>
    rw [htask _ (by rw [hc]; rfl)]
    refine Holds.guarded (lands_printTree h.ready text).1 ?_
    rw [printTree_eq]
    exact ⟨h.path, h.style, h.options, h.count.trans (Int.add_zero count).symm⟩
  | toggleAnnotations =>
    have hs : (Prompt.onLine line p).state = p.toggled := by
      rw [Prompt.onLine, hc]
      rfl
    rw [hs]
    refine ⟨⟨h.path, h.style, ?_, h.count.trans (Int.add_zero count).symm⟩, h.ready.toggled.settled⟩
    rw [← h.options]
    rfl
  | nothing | help | endOfInput | quit =>
    have hs : (Prompt.onLine line p).state = p := by
      rw [Prompt.onLine, hc]
      rfl
    rw [hs]
    exact ⟨⟨h.path, h.style, h.options, h.count.trans (Int.add_zero count).symm⟩, h.settled⟩

/-- Whether fuel is enough is no matter of the annotations. -/
theorem enough_optionsAfter {c : Command} {line : String} (h : Enough options line) :
    Enough (c.optionsAfter options) line := by
  cases c with
  | _ => exact h

theorem Rests.after {lines : List String} (h : Rests style options count p)
    (hf : ∀ line ∈ lines, Enough options line) :
    Rests style (optionsAfter options lines) (count + termLines lines) (p.after lines) := by
  induction lines generalizing options count p with
  | nil => exact ⟨⟨h.path, h.style, h.options, h.count.trans (Int.add_zero count).symm⟩, h.settled⟩
  | cons line lines ih =>
    obtain ⟨hline, hlines⟩ := List.forall_mem_cons.mp hf
    have hrest := ih (h.onLine hline) fun line hl => enough_optionsAfter (hlines line hl)
    have hcount : count + (termLines (line :: lines) : Int) =
        count + (if (Command.ofLine line).isTerm then 1 else 0) + (termLines lines : Int) := by
      unfold termLines
      rw [List.countP_cons]
      split <;> push_cast <;> omega
    rw [hcount]
    exact hrest

theorem enough_after {lines : List String} {line : String} (h : Enough options line) :
    Enough (optionsAfter options lines) line := by
  induction lines generalizing options with
  | nil => exact h
  | cons _ lines ih => exact ih (enough_optionsAfter h)

/-- What is left of lines at a prompt, and what a further command does there. -/
structure Apart (style : Style) (options : Options) (lines : List String) (p : Prompt) : Prop where
  queue : p.batch.queue = []
  outcomes : p.batch.outcomes = []
  entries : ∀ entry ∈ p.batch.reporter.entries, Reporter.Entry.text? entry = none
  held : p.batch.options = optionsAfter options lines
  count : p.lineNumber = termLines lines
  /-- A command does what it does at a new prompt with the same options and the same count. -/
  alike : ∀ line, Enough options line →
    (onLine line p).printed = (onLine line (anew style p.batch.options p.lineNumber)).printed ∧
      (onLine line p).answer = (onLine line (anew style p.batch.options p.lineNumber)).answer
  /-- The count is in one place of what is printed, and in none when the command does not complain. -/
  counted : ∀ line, Enough options line → ∃ form : Form,
    ((∀ text, Command.ofLine line = .term text → ¬Complains p.batch.options text) → form.right = none) ∧
      ∀ count, (onLine line (anew style p.batch.options count)).printed = form.fill (count + 1)

/-- **Commands do not interfere.**  The fuel has to be enough for the terms that they reduce, and there is such fuel
when terms are checked or their steps are bounded. -/
theorem commands_do_not_interfere (style : Style) (fatal : Bool) (options : Options) (lines : List String) :
    ((options.check = true ∨ options.maxSteps ≠ none) →
      ∃ depth, ∀ fuel, depth ≤ fuel → ∀ line ∈ lines, Enough { options with fuel } line) ∧
    ((∀ line ∈ lines, Enough options line) →
      Apart style options lines ((start (Reporter.start style fatal) options).after lines)) := by
  refine ⟨fun h => exists_depth h lines, fun h => ?_⟩
  have hrest : Rests style (optionsAfter options lines) (0 + termLines lines)
      ((start (Reporter.start style fatal) options).after lines) :=
    (rests_anew style options 0).after h
  generalize (start (Reporter.start style fatal) options).after lines = p at hrest
  constructor
  case queue => exact hrest.settled.queue
  case outcomes => exact hrest.settled.outcomes
  case entries => exact Reporter.text?_of_current_eq_none hrest.settled.current
  case held => exact hrest.options
  case count => exact hrest.count.trans (Int.zero_add _)
  case alike =>
    intro line hline
    have hp : Rests style p.batch.options p.lineNumber p := ⟨⟨hrest.path, hrest.style, rfl, rfl⟩, hrest.settled⟩
    have hnew := rests_anew style p.batch.options p.lineNumber
    have henough : Enough p.batch.options line := hrest.options ▸ enough_after hline
    obtain ⟨form, -, hform⟩ := exists_form style henough
    refine ⟨(hform _ _ hp).trans (hform _ _ hnew).symm, ?_⟩
    have hh := hp.ready.handles henough
    have hh' := hnew.ready.handles henough
    by_cases hb : BreaksPrompt p.batch.options line
    · rw [hh.breaks hb, hh'.breaks hb]
    · rw [hh.returns hb, hh'.returns hb]
  case counted =>
    intro line hline
    have henough : Enough p.batch.options line := hrest.options ▸ enough_after hline
    obtain ⟨form, hright, hform⟩ := exists_form style henough
    exact ⟨form, hright, fun count => hform _ _ (rests_anew style p.batch.options count)⟩

theorem enough_emptyNameLine (hc : options.check = true) : Enough options emptyNameLine := by
  intro text hline t ht ho
  obtain ⟨text', hline', -, ht'⟩ := breaksPrompt_emptyNameLine hc
  obtain rfl := Command.term.inj (hline.symm.trans hline')
  obtain rfl := Except.ok.inj (ht.symm.trans ht')
  rw [Batch.outcomeOf_var hc] at ho
  cases ho

/-- The line at which a report fails in the middle leaves nothing behind either. -/
theorem commands_do_not_interfere_past_empty_name :
    let lines := ["annotate", emptyNameLine, "type ()", emptyNameLine]
    let options : Options := ⟨false, true, none, 0⟩
    (∃ depth, ∀ fuel, depth ≤ fuel → ∀ line ∈ lines, Enough { options with fuel } line) ∧
      (∀ line ∈ lines, Enough options line) ∧
      Apart .plain options lines ((start (Reporter.start .plain true) options).after lines) := by
  intro lines options
  have hempty : Enough options emptyNameLine := enough_emptyNameLine rfl
  have hother : ∀ line c, Command.ofLine line = c → c.isTerm = false → Enough options line := by
    rintro line c rfl hc text hline
    rw [hline] at hc
    cases hc
  have hannotate := hother "annotate" .toggleAnnotations (by decide +kernel) rfl
  have htype := hother "type ()" (.showType "()") (by decide +kernel) rfl
  have hlines : ∀ line ∈ lines, Enough options line := by
    simp [lines, hempty, hannotate, htype]
  obtain ⟨hfuel, hapart⟩ := commands_do_not_interfere .plain true options lines
  exact ⟨hfuel (.inl rfl), hlines, hapart hlines⟩

end Prompt

end SimplyTyped
