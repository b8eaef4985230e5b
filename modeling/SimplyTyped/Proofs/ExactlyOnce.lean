import Mathlib
import SimplyTyped.Proofs.TextForm
import SimplyTyped.Proofs.WorkingOff

/-!
# SimplyTyped.Proofs.ExactlyOnce — every queued term is worked off once, and a failure takes no other term with it

What a term comes to when it is worked off is a function of the options and the term (`Batch.settle`), whatever batch
it waits in.  A run takes terms from the front of the queue, up to and including the first that fails; `WorksOff` says
this of a queue alone, and `run_worked` of the batch.

Calls may come in any order.  The terms that wait at the beginning and those that calls queue (`Batch.entered`) fall
into those that were worked off and those that still wait, in their order, and the runs have brought forth what the
former come to, one by one (`Batch.accounts_after`).  Runs alone then empty the queue (`Batch.conserves`).
-/

namespace SimplyTyped

namespace Reporter

theorem place_place (entry entry' : Entry) (h : entry'.path = entry.path) (entries : List Entry) :
    place entry (place entry' entries) = place entry entries := by
  induction entries with
  | nil => simp [place, h]
  | cons e rest ih =>
    by_cases he : e.path = entry.path
    · simp [place, he, h]
    · simp [place, he, h, ih]

/-- The last line of a path is the one that counts. -/
theorem registerLine_registerLine (path : String) (line line' : Option String) (number number' : Option Int)
    (r : Reporter) :
    (r.registerLine path line' number').registerLine path line number = r.registerLine path line number :=
  congrArg (fun entries => ({ r with entries } : Reporter))
    (place_place ⟨path, line, number⟩ ⟨path, line', number'⟩ rfl r.entries)

end Reporter

namespace Batch

variable {options : Options} {b : Batch} {t : Term} {e : Failure} {o : Outcome} {number : Int}

/-! ## What a term comes to -/

/-- What a term comes to when it is worked off, whatever else the batch holds. -/
def settle (options : Options) (t : Term) : Except Failure Outcome :=
  (outcomeOf options t).mapError (withSpan options.annotate t)

/-- A term fails for its types, when they are checked, or because no value is within the bound on its steps.  Where
steps are not bounded, they may go on for longer than the fuel lasts. -/
inductive Fails (options : Options) (t : Term) : Failure → Prop
  | typing {error : Typing.Error} : options.check = true → Typing.infer [] t = .error error →
      Fails options t (.typing error (t.spanAt options.annotate error.culprit))
  | steps {u : Term} {limit : Int} : options.maxSteps = some limit →
      (∀ v n d, t.Evaluates 0 n v d → limit < n) → Fails options t (.stepLimit u limit)
  | fuel : options.maxSteps = none → Fails options t .outOfFuel

theorem settle_eq_ok_iff : settle options t = .ok o ↔ outcomeOf options t = .ok o := by
  unfold settle
  cases outcomeOf options t <;> simp [Except.mapError]

theorem settle_eq_error_iff :
    settle options t = .error e ↔ ∃ e', outcomeOf options t = .error e' ∧ withSpan options.annotate t e' = e := by
  unfold settle
  cases outcomeOf options t <;> simp [Except.mapError]

theorem outcomeOf_of_settle (h : settle options t = .error .outOfFuel) : outcomeOf options t = .error .outOfFuel := by
  obtain ⟨e', ho, he⟩ := settle_eq_error_iff.mp h
  cases e' <;> cases he
  exact ho

/-- Steps are given up only at their bound, and only when no value is within it. -/
theorem exceeds_of_stepLimit {fuel : Nat} {limit : Option Int} {u : Term} {N : Int}
    (h : evaluate fuel limit t = .error (.stepLimit u N)) :
    limit = some N ∧ ∀ v n d, t.Evaluates 0 n v d → N < n := by
  cases limit with
  | none =>
    have hne : ((Machine.start none).run fuel t).1 ≠ .outOfFuel := by
      intro hr
      rw [evaluate, hr] at h
      cases h
    obtain ⟨v, m, hr⟩ := Machine.exists_value_of_limit rfl hne
    rw [evaluate_eq_ok_iff.mpr ⟨m, hr, rfl⟩] at h
    cases h
  | some L =>
    obtain rfl : L = N := by
      obtain ⟨u', he⟩ | he := evaluate_error h
      · cases he
        rfl
      · cases he
    refine ⟨rfl, fun v n d he => ?_⟩
    by_contra hle
    rw [evaluate_of_evaluates he (by omega) fuel] at h
    cases h

/-- The ways in which a term can fail. -/
theorem fails_of_settle (h : settle options t = .error e) : Fails options t e := by
  obtain ⟨e', ho, rfl⟩ := settle_eq_error_iff.mp h
  obtain ht | ⟨ty, -, he⟩ := bind_eq_error_iff.mp ho
  · obtain ⟨hc, error, hi, rfl⟩ := typeUnder_error ht
    exact .typing hc hi
  · obtain he | ⟨r, -, he⟩ := bind_eq_error_iff.mp he
    · obtain ⟨u, rfl⟩ | rfl := evaluate_error he
      · obtain ⟨hN, hle⟩ := exceeds_of_stepLimit he
        exact .steps hN hle
      · cases hN : options.maxSteps with
        | none => exact .fuel hN
        | some N =>
          rw [hN] at he
          exact absurd he (evaluate_ne_outOfFuel N _ t)
    · cases he

/-! ## A run -/

/-- How far a queue is worked off: the outcomes in order, the first term to fail, with its number and failure, and what
is left behind it. -/
inductive WorksOff (options : Options) :
    List (Int × Term) → List Outcome → Option (Int × Term × Failure) → List (Int × Term) → Prop
  | nil : WorksOff options [] [] none []
  | success {number : Int} {t : Term} {o : Outcome} {queue left : List (Int × Term)} {os : List Outcome}
      {failed : Option (Int × Term × Failure)} :
      settle options t = .ok o → WorksOff options queue os failed left →
        WorksOff options ((number, t) :: queue) (o :: os) failed left
  | failure {number : Int} {t : Term} {e : Failure} {queue : List (Int × Term)} :
      settle options t = .error e → WorksOff options ((number, t) :: queue) [] (some (number, t, e)) queue

theorem exists_worksOff (options : Options) (queue : List (Int × Term)) :
    ∃ os failed left, WorksOff options queue os failed left := by
  induction queue with
  | nil => exact ⟨[], none, [], .nil⟩
  | cons item queue ih =>
    cases hs : settle options item.2 with
    | error e => exact ⟨[], some (item.1, item.2, e), queue, .failure hs⟩
    | ok o =>
      obtain ⟨os, failed, left, h⟩ := ih
      exact ⟨o :: os, failed, left, .success hs h⟩

/-- What a run answers when a term fails, or none does. -/
def answerOf : Option (Int × Term × Failure) → Except Failure Unit
  | none => .ok ()
  | some (_, _, e) => .error e

/-- What an answer adds to what a run brings forth. -/
def raised : Except Failure Unit → List (Except Failure Outcome)
  | .ok () => []
  | .error e => [.error e]

theorem filterMap_toOption (os : List Outcome) (a : Except Failure Unit) :
    (os.map Except.ok ++ raised a).filterMap Except.toOption = os := by
  have ha : (raised a).filterMap Except.toOption = [] := by
    cases a <;> rfl
  rw [List.filterMap_append, List.filterMap_map, ha, List.append_nil]
  exact List.filterMap_some

/-- The reply of a batch to which terms were given to be worked off. -/
structure Worked (b : Batch) (queue : List (Int × Term)) (os : List Outcome)
    (failed : Option (Int × Term × Failure)) (left : List (Int × Term)) (r : Reply Batch Unit) : Prop where
  answer : r.answer = answerOf failed
  path : r.state.path = b.path
  options : r.state.options = b.options
  outcomes : r.state.outcomes = b.outcomes ++ os
  queue : b.queue = queue → (queue.map Prod.fst).Nodup → r.state.queue = left
  /-- The term that failed is the line being worked on. -/
  reporter : ∀ number t e, failed = some (number, t, e) →
    r.state.reporter = b.reporter.registerLine b.path (some (b.format t)) (some number)

variable {queue left : List (Int × Term)} {os : List Outcome} {failed : Option (Int × Term × Failure)}

theorem runAll_cons_of_error (h : outcomeOf b.options t = .error e) (number : Int) (queue : List (Int × Term)) :
    runAll ((number, t) :: queue) b =
      ⟨{ working (b.format t) number b with queue := dequeue number b.queue }, "",
        .error (withSpan b.options.annotate t e)⟩ := by
  have hr := runOne_of_error h number
  show (runOne number t >>= fun _ => runAll queue) b = _
  rw [Action.bind_of_error (e := withSpan b.options.annotate t e) (by rw [hr]), hr]

theorem runAll_cons_of_ok (h : outcomeOf b.options t = .ok o) (number : Int) (queue : List (Int × Term)) :
    runAll ((number, t) :: queue) b =
      let r := runAll queue { idle b with queue := dequeue number b.queue, outcomes := b.outcomes ++ [o] }
      ⟨r.state, (working (b.format t) number b).warningOf o ++ r.printed, r.answer⟩ := by
  have hr := runOne_of_ok h number
  have hidle : idle { working (b.format t) number b with
      queue := dequeue number b.queue, outcomes := b.outcomes ++ [o] } =
        { idle b with queue := dequeue number b.queue, outcomes := b.outcomes ++ [o] } := by
    unfold idle working Reporter.removeLine
    dsimp only
    rw [Reporter.registerLine_registerLine]
  show (runOne number t >>= fun _ => runAll queue) b = _
  rw [Action.bind_of_ok (a := ()) (by rw [hr]), hr, hidle]

theorem runAll_worked (h : WorksOff options queue os failed left) {b : Batch} (hb : b.options = options) :
    Worked b queue os failed left (runAll queue b) := by
  induction h generalizing b with
  | nil => exact ⟨rfl, rfl, rfl, (List.append_nil _).symm, fun hq _ => hq, fun _ _ _ h => by cases h⟩
  | @failure number t e queue hs =>
    obtain ⟨e', ho, rfl⟩ := settle_eq_error_iff.mp hs
    have hr := runAll_cons_of_error (hb ▸ ho) number queue
    rw [hr, hb]
    refine ⟨rfl, rfl, rfl, (List.append_nil _).symm, fun hq hn => ?_, fun n u e h => ?_⟩
    · show dequeue number b.queue = queue
      rw [hq]
      exact dequeue_cons t (List.nodup_cons.mp hn).1
    · cases h
      rfl
  | @success number t o queue left os failed hs hw ih =>
    have hr := runAll_cons_of_ok (hb ▸ settle_eq_ok_iff.mp hs) number queue
    have hw := ih (b := { idle b with queue := dequeue number b.queue, outcomes := b.outcomes ++ [o] }) hb
    rw [hr]
    refine ⟨hw.answer, hw.path, hw.options, ?_, fun hq hn => ?_, fun n u e h => ?_⟩
    · rw [hw.outcomes, List.append_assoc]
      rfl
    · obtain ⟨hnot, hn⟩ := List.nodup_cons.mp hn
      refine hw.queue ?_ hn
      rw [hq]
      exact dequeue_cons t hnot
    · have hrep := hw.reporter n u e h
      unfold idle Reporter.removeLine at hrep
      rwa [Reporter.registerLine_registerLine] at hrep

theorem run_worked (h : WorksOff b.options b.queue os failed left) : Worked b b.queue os failed left (run b) := by
  unfold run
  rw [Action.get_bind]
  exact runAll_worked h rfl

/-- A run has to do with terms from the front of the queue only, and brings forth what they come to. -/
theorem WorksOff.executed (h : WorksOff options queue os failed left) :
    ∃ executed, queue = executed ++ left ∧
      executed.map (fun item => settle options item.2) = os.map .ok ++ raised (answerOf failed) := by
  induction h with
  | nil => exact ⟨[], rfl, rfl⟩
  | @failure number t e queue hs => exact ⟨[(number, t)], rfl, by simp [hs, answerOf, raised]⟩
  | @success number t o queue left os failed hs _ ih =>
    obtain ⟨executed, rfl, hm⟩ := ih
    exact ⟨(number, t) :: executed, rfl, by simp [hs, hm]⟩

/-- The failure is that of the first term that is left in the queue after those that succeeded. -/
theorem WorksOff.settle_failed (h : WorksOff options queue os (some (number, t, e)) left) :
    settle options t = .error e := by
  generalize hf : some (number, t, e) = failed at h
  induction h with
  | nil => cases hf
  | failure hs =>
    cases hf
    exact hs
  | success _ _ ih => exact ih hf

/-- At least one term leaves a queue that is not empty. -/
theorem WorksOff.length_left_le (h : WorksOff options queue os failed left) : left.length ≤ queue.length - 1 := by
  induction h with
  | nil => exact Nat.le_refl _
  | failure => simp
  | success _ _ ih =>
    rw [List.length_cons]
    omega

/-! ## Calls in any order -/

/-- What can be asked of a batch again and again. -/
inductive Call where
  | add (line : String) (number : Int)
  | run

/-- The action that is asked for. -/
def Call.action : Call → Action Batch Unit
  | add line number => Batch.add line number
  | run => Batch.run

/-- The term that a call queues under its number: the one on its line, when there is one. -/
def Call.queued? : Call → Option (Int × Term)
  | add line number =>
    if (content line).isEmpty then none else (Record.termOfLine (content line)).toOption.map fun t => (number, t)
  | run => none

/-- The batch after a call, whether that fails or not. -/
def asked (c : Call) (b : Batch) : Batch := (c.action b).state

/-- What a call brings forth: the outcomes that a run adds, and behind them its failure. -/
def bringsForth : Call → Batch → List (Except Failure Outcome)
  | .add _ _, _ => []
  | .run, b => ((run b).state.outcomes.drop b.outcomes.length).map .ok ++ raised (run b).answer

/-- The batch after calls. -/
def after : List Call → Batch → Batch
  | [], b => b
  | c :: calls, b => after calls (asked c b)

/-- What calls bring forth, in order. -/
def history : List Call → Batch → List (Except Failure Outcome)
  | [], _ => []
  | c :: calls, b => bringsForth c b ++ history calls (asked c b)

/-- The terms that wait, and behind them those that calls queue. -/
def entered (calls : List Call) (b : Batch) : List (Int × Term) := b.queue ++ calls.filterMap Call.queued?

theorem after_append (calls calls' : List Call) (b : Batch) :
    after (calls ++ calls') b = after calls' (after calls b) := by
  induction calls generalizing b with
  | nil => rfl
  | cons c calls ih => exact ih (asked c b)

/-- A line is skipped, or refused, or its term is queued. -/
theorem add_cases (line : String) (number : Int) (b : Batch) :
    ((content line).isEmpty = true ∧ (Call.add line number).queued? = none ∧ add line number b = ⟨b, "", .ok ()⟩) ∨
      ((content line).isEmpty = false ∧ (Call.add line number).queued? = none ∧
        ∃ e, add line number b = ⟨working (content line) number b, "", .error e⟩) ∨
      ((content line).isEmpty = false ∧ ∃ t, (Call.add line number).queued? = some (number, t) ∧
        add line number b = ⟨{ idle (working (content line) number b) with queue := enqueue number t b.queue }, "",
          .ok ()⟩) := by
  cases hl : (content line).isEmpty with
  | true => exact .inl ⟨rfl, by simp [Call.queued?, hl], add_of_isEmpty hl number b⟩
  | false =>
    cases ht : Record.termOfLine (content line) with
    | error e =>
      exact .inr (.inl ⟨rfl, by simp [Call.queued?, hl, ht, Except.toOption], e, add_of_error hl ht number b⟩)
    | ok t =>
      exact .inr (.inr ⟨rfl, t, by simp [Call.queued?, hl, ht, Except.toOption], add_of_ok hl ht number b⟩)

/-- How the terms that entered a batch and what was brought forth since go together with the batch that came of it:
terms were worked off from the front, each came to what it comes to, and the others wait. -/
structure Accounts (b : Batch) (entered : List (Int × Term)) (brought : List (Except Failure Outcome))
    (b' : Batch) : Prop where
  options : b'.options = b.options
  outcomes : b'.outcomes = b.outcomes ++ brought.filterMap Except.toOption
  executed : ∃ executed, entered = executed ++ b'.queue ∧ brought = executed.map fun item => settle b.options item.2

theorem accounts_asked (c : Call) (h : ((b.queue ++ c.queued?.toList).map Prod.fst).Nodup) :
    Accounts b (b.queue ++ c.queued?.toList) (bringsForth c b) (asked c b) := by
  cases c with
  | add line number =>
    show Accounts b _ _ (add line number b).state
    obtain ⟨-, hq, ha⟩ | ⟨-, hq, e, ha⟩ | ⟨-, t, hq, ha⟩ := add_cases line number b
    · rw [ha, hq]
      exact ⟨rfl, (List.append_nil _).symm, [], List.append_nil _, rfl⟩
    · rw [ha, hq]
      exact ⟨rfl, (List.append_nil _).symm, [], List.append_nil _, rfl⟩
    · rw [hq] at h
      rw [Option.toList_some, List.map_append, List.nodup_append'] at h
      have hnot : number ∉ b.queue.map Prod.fst := fun hm => h.2.2 hm (List.mem_singleton.mpr rfl)
      rw [ha, hq]
      refine ⟨rfl, (List.append_nil _).symm, [], ?_, rfl⟩
      exact (enqueue_of_notMem t hnot).symm
  | run =>
    obtain ⟨os, failed, left, hw⟩ := exists_worksOff b.options b.queue
    obtain ⟨executed, hq, hm⟩ := hw.executed
    have hr := run_worked hw
    have hb : bringsForth .run b = os.map .ok ++ raised (answerOf failed) := by
      simp only [bringsForth, hr.outcomes, hr.answer, List.drop_left]
    have hn : (b.queue.map Prod.fst).Nodup := by simpa [Call.queued?] using h
    refine ⟨hr.options, ?_, executed, ?_, by rw [hb, hm]⟩
    · rw [hb, filterMap_toOption]
      exact hr.outcomes
    · rw [show (asked .run b).queue = left from hr.queue rfl hn]
      simpa [Call.queued?] using hq

theorem Accounts.trans {b b' b'' : Batch} {more : List (Int × Term)} {entered : List (Int × Term)}
    {brought brought' : List (Except Failure Outcome)} (h : Accounts b entered brought b')
    (h' : Accounts b' (b'.queue ++ more) brought' b'') :
    Accounts b (entered ++ more) (brought ++ brought') b'' := by
  obtain ⟨executed, he, hb⟩ := h.executed
  obtain ⟨executed', he', hb'⟩ := h'.executed
  refine ⟨h'.options.trans h.options, ?_, executed ++ executed', ?_, ?_⟩
  · rw [h'.outcomes, h.outcomes, List.filterMap_append, List.append_assoc]
  · rw [he, List.append_assoc, he', List.append_assoc]
  · rw [hb, hb', h.options, List.map_append]

/-- **Nothing that enters a batch is lost or worked off twice**, in whatever order calls come. -/
theorem accounts_after (calls : List Call) (b : Batch) (h : ((entered calls b).map Prod.fst).Nodup) :
    Accounts b (entered calls b) (history calls b) (after calls b) := by
  induction calls generalizing b with
  | nil => exact ⟨rfl, (List.append_nil _).symm, [], List.append_nil _, rfl⟩
  | cons c calls ih =>
    have hsplit : entered (c :: calls) b = (b.queue ++ c.queued?.toList) ++ calls.filterMap Call.queued? := by
      unfold entered
      cases hq : c.queued? <;> simp [hq]
    rw [hsplit] at h ⊢
    have hc := accounts_asked c (List.map_append ▸ h).of_append_left
    refine hc.trans (ih (asked c b) ?_)
    obtain ⟨executed, he, -⟩ := hc.executed
    rw [he, List.append_assoc, List.map_append] at h
    exact h.of_append_right

/-- As many runs as terms wait empty the queue. -/
theorem queue_after_runs (n : Nat) (b : Batch) (h : (b.queue.map Prod.fst).Nodup) (hn : b.queue.length ≤ n) :
    (after (List.replicate n .run) b).queue = [] := by
  induction n generalizing b with
  | zero => exact List.length_eq_zero_iff.mp (Nat.le_zero.mp hn)
  | succ n ih =>
    obtain ⟨os, failed, left, hw⟩ := exists_worksOff b.options b.queue
    obtain ⟨executed, hq, -⟩ := hw.executed
    have hle := hw.length_left_le
    have hl : (asked .run b).queue = left := (run_worked hw).queue rfl h
    refine ih (asked .run b) ?_ ?_
    · rw [hq, List.map_append] at h
      rw [hl]
      exact h.of_append_right
    · rw [hl]
      omega

/-- What a batch does with the terms that enter it, seen after some calls. -/
structure Conserves (calls : List Call) (b : Batch) : Prop where
  /-- A call that fails to queue a term changes neither queue nor outcomes. -/
  refused : ∀ line number e, (add line number (after calls b)).answer = .error e →
    (Call.add line number).queued? = none ∧
      (add line number (after calls b)).state.queue = (after calls b).queue ∧
      (add line number (after calls b)).state.outcomes = (after calls b).outcomes
  /-- Otherwise the term of the line, if it has one, is behind those that wait. -/
  accepted : ∀ line number, (add line number (after calls b)).answer = .ok () →
    number ∉ (after calls b).queue.map Prod.fst →
      ((Call.add line number).queued? = none ↔ (content line).isEmpty = true) ∧
      (add line number (after calls b)).state.queue =
        (after calls b).queue ++ (Call.add line number).queued?.toList ∧
      (add line number (after calls b)).state.outcomes = (after calls b).outcomes
  /-- A run works off the queue up to the first term that fails, and fails as that does. -/
  ran : ∃ os failed left, WorksOff b.options (after calls b).queue os failed left ∧
    (run (after calls b)).answer = answerOf failed ∧
    (run (after calls b)).state.queue = left ∧
    (run (after calls b)).state.outcomes = (after calls b).outcomes ++ os
  accounts : Accounts b (entered calls b) (history calls b) (after calls b)
  /-- Runs until the queue is empty work off all terms, in order. -/
  drained : ∀ n, (after calls b).queue.length ≤ n →
    (after (calls ++ List.replicate n .run) b).queue = [] ∧
    history (calls ++ List.replicate n .run) b = (entered calls b).map (fun item => settle b.options item.2) ∧
    (after (calls ++ List.replicate n .run) b).outcomes =
      b.outcomes ++ (entered calls b).filterMap (fun item => (settle b.options item.2).toOption)
  /-- A term comes to what it comes to alone in a new batch with the same options. -/
  alone : ∀ number t, (number, t) ∈ entered calls b → ∀ reporter path n,
    (run ⟨reporter, path, b.options, [(n, t)], []⟩).answer = (settle b.options t).map (fun _ => ()) ∧
    (run ⟨reporter, path, b.options, [(n, t)], []⟩).state.outcomes = (settle b.options t).toOption.toList
  fails : ∀ number t e, (number, t) ∈ entered calls b → settle b.options t = .error e → Fails b.options t e
  /-- With the check on, or the steps bounded, no term fails for want of fuel when there is enough of it. -/
  enough : b.options.check = true ∨ b.options.maxSteps ≠ none → ∃ depth, ∀ fuel, depth ≤ fuel →
    ∀ item ∈ entered calls b, settle { b.options with fuel } item.2 ≠ .error .outOfFuel

theorem entered_runs (calls : List Call) (n : Nat) (b : Batch) :
    entered (calls ++ List.replicate n .run) b = entered calls b := by
  have hruns : (List.replicate n Call.run).filterMap Call.queued? = [] := by
    rw [List.filterMap_replicate_of_none]
    rfl
  unfold entered
  rw [List.filterMap_append, hruns, List.append_nil]

/-- A term alone in a batch is taken from it, and it comes to what it comes to. -/
theorem run_alone (reporter : Reporter) (path : String) (options : Options) (number : Int) (t : Term) :
    (run ⟨reporter, path, options, [(number, t)], []⟩).answer = (settle options t).map (fun _ => ()) ∧
    (run ⟨reporter, path, options, [(number, t)], []⟩).state.outcomes = (settle options t).toOption.toList := by
  cases hs : settle options t with
  | error e =>
    have hw : WorksOff options [(number, t)] [] (some (number, t, e)) [] := .failure hs
    have hr := run_worked (b := ⟨reporter, path, options, [(number, t)], []⟩) hw
    exact ⟨hr.answer, hr.outcomes⟩
  | ok o =>
    have hw : WorksOff options [(number, t)] [o] none [] := .success hs .nil
    have hr := run_worked (b := ⟨reporter, path, options, [(number, t)], []⟩) hw
    exact ⟨hr.answer, hr.outcomes⟩

/-- **Queued terms are worked off exactly once, and errors lose nothing else.**  This holds of every batch, after any
calls, when no two terms that enter have the same number. -/
theorem conserves (calls : List Call) (b : Batch) (h : ((entered calls b).map Prod.fst).Nodup) :
    Conserves calls b := by
  have ha := accounts_after calls b h
  obtain ⟨executed, he, -⟩ := ha.executed
  have hqueue : ((after calls b).queue.map Prod.fst).Nodup := by
    rw [he, List.map_append] at h
    exact h.of_append_right
  constructor
  case refused =>
    intro line number e hadd
    obtain ⟨-, -, hr⟩ | ⟨-, hq, e', hr⟩ | ⟨-, t, -, hr⟩ := add_cases line number (after calls b)
    · rw [hr] at hadd
      cases hadd
    · rw [hr]
      exact ⟨hq, rfl, rfl⟩
    · rw [hr] at hadd
      cases hadd
  case accepted =>
    intro line number hadd hnot
    obtain ⟨hl, hq, hr⟩ | ⟨-, -, e', hr⟩ | ⟨hl, t, hq, hr⟩ := add_cases line number (after calls b)
    · rw [hr, hq]
      exact ⟨by simp [hl], (List.append_nil _).symm, rfl⟩
    · rw [hr] at hadd
      cases hadd
    · rw [hr, hq]
      exact ⟨by simp [hl], enqueue_of_notMem t hnot, rfl⟩
  case ran =>
    obtain ⟨os, failed, left, hw⟩ := exists_worksOff b.options (after calls b).queue
    have hr : Worked _ _ os failed left (run (after calls b)) := run_worked (ha.options ▸ hw)
    exact ⟨os, failed, left, hw, hr.answer, hr.queue rfl hqueue, hr.outcomes⟩
  case accounts => exact ha
  case drained =>
    intro n hn
    have hall := accounts_after (calls ++ List.replicate n .run) b (by rwa [entered_runs])
    obtain ⟨executed', he', hh⟩ := hall.executed
    have hempty : (after (calls ++ List.replicate n .run) b).queue = [] := by
      rw [after_append]
      exact queue_after_runs n _ hqueue hn
    rw [hempty, List.append_nil, entered_runs] at he'
    rw [← he'] at hh
    refine ⟨hempty, hh, ?_⟩
    rw [hall.outcomes, hh, List.filterMap_map]
    rfl
  case alone => exact fun number t _ reporter path n => run_alone reporter path b.options n t
  case fails => exact fun number t e _ hs => fails_of_settle hs
  case enough =>
    intro h
    refine exists_depth_of_forall (fun item => ?_) (entered calls b)
    obtain ⟨depth, hd⟩ := exists_depth h item.2
    exact ⟨depth, fun fuel hle hs => hd fuel hle (outcomeOf_of_settle hs)⟩

/-- The second of three terms fails its check; a fourth one and a comment are added, and later runs take up the rest. -/
theorem conserves_around_unbound_name :
    let line := "\x7b\"tag\": \"TmTrue\"\x7d"
    let calls : List Call := [.run, .add line 5, .add ";; TmTrue" 6, .run, .run]
    let b : Batch := ⟨.start .plain false, "terms", ⟨false, true, none, 8⟩,
      [(1, .unit), (2, .var "x"), (4, .bool false)], []⟩
    ((entered calls b).map Prod.fst).Nodup ∧ Conserves calls b := by
  intro line calls b
  have hwritten : line = Record.toText (.term (.bool true)) := by decide +kernel
  have hcontent : content line = line := by rw [hwritten, Record.content_toText]
  have hline : Record.termOfLine line = .ok (.bool true) := by rw [hwritten, Record.termOfLine_toText]
  have hadd : (Call.add line 5).queued? = some (5, .bool true) := by
    have hne : line.isEmpty = false := by decide
    simp [Call.queued?, hcontent, hline, hne, Except.toOption]
  have hskip : (Call.add ";; TmTrue" 6).queued? = none := by
    have hcomment : content ";; TmTrue" = "" := by decide +kernel
    simp [Call.queued?, hcomment]
  have hrun : Call.run.queued? = none := rfl
  have hn : ((entered calls b).map Prod.fst).Nodup := by
    simp [calls, b, entered, hadd, hskip, hrun]
  exact ⟨hn, conserves calls b hn⟩

end Batch

end SimplyTyped
