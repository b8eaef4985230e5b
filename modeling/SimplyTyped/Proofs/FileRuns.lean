import Mathlib
import SimplyTyped.CommandLine
import SimplyTyped.Proofs.DataFiles
import SimplyTyped.Proofs.Flags

/-!
# SimplyTyped.Proofs.FileRuns — a run over a file describes all of its terms or none

What a term comes to under an invocation is said without fuel (`Invocation.Yields`), and a run only has to have fuel
enough for it.  A file run has three passes.  The first reads all lines, and a line that cannot be read ends the run
before anything is evaluated.  The second takes the queue up to the first term that comes to nothing.  Only behind the
last term are the outcomes described, so a failure in either pass leaves no description behind
(`CommandLine.Call.all_or_nothing`).
-/

namespace SimplyTyped

/-- The reporter of a file run, with the line being worked on. -/
def Reporter.onFile (style : Style) (path : String) (line : Option String) (number : Option Int) : Reporter :=
  ⟨style, true, [⟨path, line, number⟩]⟩

theorem Reporter.registerLine_onFile (style : Style) (path : String) (line line' : Option String)
    (number number' : Option Int) :
    (onFile style path line number).registerLine path line' number' = onFile style path line' number' := by
  simp [onFile, registerLine, place]

namespace CommandLine

open Batch (Files Stores reading numbered content outcomeOf promptPath)

variable {i : Invocation} {style : Style} {fuel : Nat} {path : String} {lines : List String} {line : String}
  {number : Int} {o : Outcome} {t : Term} {e : Failure} {items : List (Int × Outcome)}

/-! ## What terms come to -/

/-- A term comes to an outcome under an invocation: it has the type, when it is checked, and it evaluates to the value
in as many steps, which are within the bound. -/
structure Invocation.Yields (i : Invocation) (o : Outcome) : Prop where
  type : if i.check then ∃ T, o.type = some T ∧ Typing.HasType [] o.term T else o.type = none
  value : ∃ d, o.term.Evaluates 0 o.steps o.value d
  bound : ∀ N, i.bound.limit = some N → (o.steps : Int) ≤ max N 0

/-- A line is skipped, or its term comes to an outcome. -/
def Invocation.Fine (i : Invocation) (line : String) : Prop :=
  reading line = .ok none ∨ ∃ o : Outcome, reading line = .ok (some o.term) ∧ i.Yields o

/-- Lines from a number on are fine, and these are the outcomes of their terms, each with the number of its line. -/
inductive Invocation.Done (i : Invocation) : Int → List String → List (Int × Outcome) → Prop
  | nil {number : Int} : Done i number [] []
  | skipped {number : Int} {line : String} {lines : List String} {items : List (Int × Outcome)} :
      reading line = .ok none → Done i (number + 1) lines items → Done i number (line :: lines) items
  | term {number : Int} {line : String} {lines : List String} {o : Outcome} {items : List (Int × Outcome)} :
      reading line = .ok (some o.term) → i.Yields o → Done i (number + 1) lines items →
        Done i number (line :: lines) ((number, o) :: items)

/-- The terms of outcomes, as they waited. -/
def queued (items : List (Int × Outcome)) : List (Int × Term) := items.map fun item => (item.1, item.2.term)

theorem typeUnder_eq_ok_iff {ty : Option Ty} : Batch.typeUnder (i.options fuel) t = .ok ty ↔
    if i.check then ∃ T, ty = some T ∧ Typing.HasType [] t T else ty = none := by
  rw [Batch.typeUnder, show (i.options fuel).check = i.check from rfl]
  cases i.check with
  | false => simp [eq_comm]
  | true =>
    simp only [if_true, ← typeOf_eq_ok_iff]
    cases typeOf t <;> simp [Except.map, eq_comm]

/-- What an execution comes to is an outcome of the term. -/
theorem yields_of_outcomeOf (h : outcomeOf (i.options fuel) t = .ok o) : o.term = t ∧ i.Yields o := by
  obtain ⟨ty, ht, h⟩ := bind_eq_ok_iff.mp h
  obtain ⟨r, he, h⟩ := bind_eq_ok_iff.mp h
  obtain rfl := Except.ok.inj h
  obtain ⟨hv, hN⟩ := within_of_evaluate (v := r.1) (n := r.2) he
  exact ⟨rfl, typeUnder_eq_ok_iff.mp ht, hv, hN⟩

/-- An execution comes to the outcome of the term when its fuel is enough. -/
theorem exists_outcomeOf_of_yields (h : i.Yields o) :
    ∃ depth, ∀ fuel, depth ≤ fuel → outcomeOf (i.options fuel) o.term = .ok o := by
  obtain ⟨d, hv⟩ := h.value
  obtain ⟨depth, hdepth⟩ := exists_evaluate_of_within hv h.bound
  refine ⟨depth, fun fuel hle => ?_⟩
  have he : evaluate (i.options fuel).fuel (i.options fuel).maxSteps o.term = .ok (o.value, o.steps) := hdepth fuel hle
  rw [outcomeOf, typeUnder_eq_ok_iff.mpr h.type, he]
  rfl

/-! ## Lines -/

theorem Invocation.Done.read (h : i.Done number lines items) : ∃ ts,
    List.Forall₂ (fun line t? => reading line = .ok t?) lines ts ∧
      numbered number ts = queued items := by
  induction h with
  | nil => exact ⟨[], .nil, rfl⟩
  | skipped hr _ ih =>
    obtain ⟨ts, hts, hn⟩ := ih
    exact ⟨none :: ts, .cons hr hts, hn⟩
  | term hr _ _ ih =>
    obtain ⟨ts, hts, hn⟩ := ih
    exact ⟨some _ :: ts, .cons hr hts, by rw [numbered, hn]; rfl⟩

theorem Invocation.Done.yields (h : i.Done number lines items) : ∀ item ∈ items, i.Yields item.2 := by
  induction h with
  | nil => exact fun item hi => absurd hi List.not_mem_nil
  | skipped _ _ ih => exact ih
  | term _ ho _ ih => exact List.forall_mem_cons.mpr ⟨ho, ih⟩

/-- Lines that are fine have outcomes. -/
theorem exists_done (h : ∀ line ∈ lines, i.Fine line) (number : Int) : ∃ items, i.Done number lines items := by
  induction lines generalizing number with
  | nil => exact ⟨[], .nil⟩
  | cons line lines ih =>
    obtain ⟨hl, hls⟩ := List.forall_mem_cons.mp h
    obtain ⟨items, hd⟩ := ih hls (number + 1)
    obtain hr | ⟨o, hr, ho⟩ := hl
    · exact ⟨items, .skipped hr hd⟩
    · exact ⟨(number, o) :: items, .term hr ho hd⟩

/-- Of things that do not all have a property there is a first that has it not. -/
theorem exists_first {α : Type} {P : α → Prop} {xs : List α} (h : ∃ x ∈ xs, ¬P x) :
    ∃ before x behind, xs = before ++ x :: behind ∧ (∀ y ∈ before, P y) ∧ ¬P x := by
  induction xs with
  | nil =>
    obtain ⟨x, hx, -⟩ := h
    exact absurd hx List.not_mem_nil
  | cons x xs ih =>
    by_cases hx : P x
    · obtain ⟨before, y, behind, rfl, hb, hy⟩ := ih (by simpa [hx] using h)
      exact ⟨x :: before, y, behind, rfl, List.forall_mem_cons.mpr ⟨hx, hb⟩, hy⟩
    · exact ⟨[], x, xs, rfl, by simp, hx⟩

/-! ## The three passes -/

/-- The batch of a file run while no line is worked on. -/
def Invocation.batch (i : Invocation) (style : Style) (fuel : Nat) (path : String) (queue : List (Int × Term))
    (outcomes : List Outcome) : Batch :=
  ⟨.onFile style path none none, path, i.options fuel, queue, outcomes⟩

/-- The batch of a file run while a line is worked on. -/
def Invocation.busy (i : Invocation) (style : Style) (fuel : Nat) (path line : String) (number : Int)
    (queue : List (Int × Term)) (outcomes : List Outcome) : Batch :=
  ⟨.onFile style path (some line) (some number), path, i.options fuel, queue, outcomes⟩

/-- The warning about an outcome that is stuck. -/
def Invocation.warning (i : Invocation) (style : Style) (path : String) (item : Int × Outcome) : String :=
  if item.2.value.isValue then ""
  else (Reporter.onFile style path (some (item.2.term.layout i.annotate)) (some item.1)).caution
    (.quoting (item.2.value.layout i.annotate) " is stuck and cannot be reduced to a value")

/-- The line that describes an outcome. -/
def Invocation.description (i : Invocation) (o : Outcome) : String :=
  (i.batch .plain 0 "" [] []).describe o ++ "\n"

/-- Working off a term that has an outcome prints a warning at most, and the terms behind it come next. -/
theorem runAll_cons (ho : outcomeOf (i.options fuel) o.term = .ok o) {rest : List (Int × Term)}
    (hn : number ∉ rest.map Prod.fst) (style : Style) (path : String) (outcomes : List Outcome) :
    Batch.runAll ((number, o.term) :: rest) (i.batch style fuel path ((number, o.term) :: rest) outcomes) =
      let r := Batch.runAll rest (i.batch style fuel path rest (outcomes ++ [o]))
      ⟨r.state, i.warning style path (number, o) ++ r.printed, r.answer⟩ := by
  have hr := Batch.runAll_cons_of_ok (b := i.batch style fuel path ((number, o.term) :: rest) outcomes) ho number rest
  have hnext : ({ Batch.idle (i.batch style fuel path ((number, o.term) :: rest) outcomes) with
      queue := Batch.dequeue number ((number, o.term) :: rest), outcomes := outcomes ++ [o] } : Batch) =
        i.batch style fuel path rest (outcomes ++ [o]) := by
    rw [Batch.dequeue_cons o.term hn, Batch.idle, Reporter.removeLine]
    simp only [Invocation.batch, Reporter.registerLine_onFile]
  have hwarning : (Batch.working ((i.batch style fuel path ((number, o.term) :: rest) outcomes).format o.term) number
      (i.batch style fuel path ((number, o.term) :: rest) outcomes)).warningOf o =
        i.warning style path (number, o) := by
    simp only [Batch.working, Invocation.batch, Reporter.registerLine_onFile]
    rfl
  rw [hwarning] at hr
  exact hr.trans (congrArg (fun b => (⟨(Batch.runAll rest b).state,
    i.warning style path (number, o) ++ (Batch.runAll rest b).printed, (Batch.runAll rest b).answer⟩ :
      Reply Batch Unit)) hnext)

/-- Working off terms that have outcomes prints warnings only, and the terms behind them come next. -/
theorem runAll_append (hd : ∀ item ∈ items, outcomeOf (i.options fuel) item.2.term = .ok item.2)
    (rest : List (Int × Term)) (hn : ((queued items ++ rest).map Prod.fst).Nodup) (style : Style) (path : String)
    (outcomes : List Outcome) :
    Batch.runAll (queued items ++ rest) (i.batch style fuel path (queued items ++ rest) outcomes) =
      let r := Batch.runAll rest (i.batch style fuel path rest (outcomes ++ items.map Prod.snd))
      ⟨r.state, String.join (items.map (i.warning style path)) ++ r.printed, r.answer⟩ := by
  induction items generalizing outcomes with
  | nil => simp [queued, String.join]
  | cons item items ih =>
    obtain ⟨number, o⟩ := item
    obtain ⟨ho, hd⟩ := List.forall_mem_cons.mp hd
    obtain ⟨hnot, hn⟩ := List.nodup_cons.mp hn
    have hnot' : number ∉ (queued items ++ rest).map Prod.fst := hnot
    have hcons := runAll_cons ho hnot' style path outcomes
    rw [ih hd hn (outcomes ++ [o])] at hcons
    refine hcons.trans ?_
    simp [String.append_assoc]

/-- A term that comes to nothing ends a run without a word. -/
theorem runAll_failed (ht : outcomeOf (i.options fuel) t = .error e) (rest : List (Int × Term)) (style : Style)
    (path : String) (number : Int) (outcomes : List Outcome) :
    ∃ queue, Batch.runAll ((number, t) :: rest) (i.batch style fuel path ((number, t) :: rest) outcomes) =
      ⟨i.busy style fuel path (t.layout i.annotate) number queue outcomes, "",
        .error (Batch.withSpan i.annotate t e)⟩ := by
  have hr := Batch.runAll_cons_of_error (b := i.batch style fuel path ((number, t) :: rest) outcomes) ht number rest
  refine ⟨Batch.dequeue number ((number, t) :: rest), hr.trans ?_⟩
  simp only [Batch.working, Invocation.batch, Invocation.busy, Reporter.registerLine_onFile]
  rfl

theorem printOutcomes_eq (b : Batch) (os : List Outcome) (s : Batch) :
    printOutcomes b os s = ⟨s, String.join (os.map fun o => b.describe o ++ "\n"), .ok ()⟩ := by
  induction os with
  | nil => rfl
  | cons o os ih =>
    rw [printOutcomes, Action.print_bind, ih, List.map_cons]
    simp

variable {files : Files} {text : List Char} {before behind : List Flag} {ts : List (Option Term)}
  {queue : List (Int × Term)} {b s : Batch} {printed : String} {first rest : List String}

theorem runFile_of_ok (hload : Batch.load files false b = ⟨i.batch style fuel path queue [], "", .ok ()⟩)
    (hrun : Batch.runAll queue (i.batch style fuel path queue []) = ⟨s, printed, .ok ()⟩) :
    runFile files b = ⟨s, printed ++ String.join (s.outcomes.map fun o => s.describe o ++ "\n"), .ok ()⟩ := by
  have hrun' : Batch.run (i.batch style fuel path queue []) = ⟨s, printed, .ok ()⟩ := by
    rw [Batch.run, Action.get_bind]
    exact hrun
  unfold runFile
  rw [Action.bind_of_ok (a := ()) (by rw [hload]), hload]
  dsimp only
  rw [Action.bind_of_ok (a := ()) (by rw [hrun']), hrun']
  dsimp only
  rw [Action.get_bind, printOutcomes_eq, String.empty_append]

theorem runFile_of_error (hload : Batch.load files false b = ⟨i.batch style fuel path queue [], "", .ok ()⟩)
    (hrun : Batch.runAll queue (i.batch style fuel path queue []) = ⟨s, printed, .error e⟩) :
    runFile files b = ⟨s, printed, .error e⟩ := by
  have hrun' : Batch.run (i.batch style fuel path queue []) = ⟨s, printed, .error e⟩ := by
    rw [Batch.run, Action.get_bind]
    exact hrun
  unfold runFile
  rw [Action.bind_of_ok (a := ()) (by rw [hload]), hload]
  dsimp only
  rw [Action.bind_of_error (e := e) (by rw [hrun']), hrun', String.empty_append]

theorem load_eq (hs : Stores files path text) (hp : path ≠ promptPath) :
    Batch.load files false (i.batch style fuel path [] []) =
      Batch.addLines 1 ((Text.lines text).map String.ofList) (i.batch style fuel path [] []) :=
  Stores.load_eq (b := i.batch style fuel path [] []) hs hp false

theorem removeLine_batch (queue : List (Int × Term)) (outcomes : List Outcome) :
    (i.batch style fuel path queue outcomes).reporter.removeLine path =
      (i.batch style fuel path queue outcomes).reporter :=
  Reporter.registerLine_onFile ..

theorem load_of_read (hs : Stores files path text) (hp : path ≠ promptPath)
    (hr : List.Forall₂ (fun line t? => reading line = .ok t?) ((Text.lines text).map String.ofList) ts) :
    Batch.load files false (i.batch style fuel path [] []) =
      ⟨i.batch style fuel path (numbered 1 ts) [], "", .ok ()⟩ := by
  rw [load_eq hs hp]
  exact Batch.addLines_of_read hr 1 (removeLine_batch [] []) fun item hi => absurd hi List.not_mem_nil

/-- A file whose terms all have outcomes is worked off and described. -/
theorem runFile_of_done (hs : Stores files path text) (hp : path ≠ promptPath)
    (h : i.Done 1 ((Text.lines text).map String.ofList) items)
    (hd : ∀ item ∈ items, outcomeOf (i.options fuel) item.2.term = .ok item.2) :
    runFile files (i.batch style fuel path [] []) =
      ⟨i.batch style fuel path [] (items.map Prod.snd),
        String.join (items.map (i.warning style path)) ++
          String.join (items.map fun item => i.description item.2), .ok ()⟩ := by
  obtain ⟨ts, hr, hqueue⟩ := h.read
  have hload : Batch.load files false (i.batch style fuel path [] []) =
      ⟨i.batch style fuel path (numbered 1 ts) [], "", .ok ()⟩ := load_of_read hs hp hr
  have hn := Batch.nodup_numbered 1 ts
  rw [hqueue] at hload hn
  have hrun := runAll_append hd [] (by rwa [List.append_nil]) style path []
  rw [List.append_nil] at hrun
  have hdescribe : (items.map Prod.snd).map
      (fun o => (i.batch style fuel path [] (items.map Prod.snd)).describe o ++ "\n") =
      items.map fun item => i.description item.2 := List.map_map
  rw [runFile_of_ok hload hrun, Batch.runAll, Action.pure_apply, List.nil_append, String.append_empty]
  exact congrArg (fun ds => (⟨_, _ ++ String.join ds, .ok ()⟩ : Reply Batch Unit)) hdescribe

/-- A line that cannot be read ends a run before any term is looked at. -/
theorem runFile_of_unread (hs : Stores files path text) (hp : path ≠ promptPath)
    (hl : (Text.lines text).map String.ofList = first ++ line :: rest)
    (hr : List.Forall₂ (fun line t? => reading line = .ok t?) first ts) (he : reading line = .error e) :
    runFile files (i.batch style fuel path [] []) =
      ⟨i.busy style fuel path (content line) (1 + first.length) (numbered 1 ts) [], "", .error e⟩ := by
  have hload : Batch.load files false (i.batch style fuel path [] []) =
      ⟨i.busy style fuel path (content line) (1 + first.length) (numbered 1 ts) [], "", .error e⟩ := by
    rw [load_eq hs hp, hl, Batch.addLines_of_unread hr he rest 1 (removeLine_batch [] [])
      fun item hi => absurd hi List.not_mem_nil]
    simp [Batch.working, Invocation.batch, Invocation.busy, Reporter.registerLine_onFile]
  unfold runFile
  rw [Action.bind_of_error (e := e) (by rw [hload]), hload]

/-- A term that comes to nothing ends a run before anything is described. -/
theorem runFile_of_failed (hs : Stores files path text) (hp : path ≠ promptPath)
    (hl : (Text.lines text).map String.ofList = first ++ line :: rest) (h : i.Done 1 first items)
    (hd : ∀ item ∈ items, outcomeOf (i.options fuel) item.2.term = .ok item.2) (hline : reading line = .ok (some t))
    (hr : List.Forall₂ (fun line t? => reading line = .ok t?) rest ts)
    (ht : outcomeOf (i.options fuel) t = .error e) (style : Style) :
    ∃ queue, runFile files (i.batch style fuel path [] []) =
      ⟨i.busy style fuel path (t.layout i.annotate) (1 + first.length) queue (items.map Prod.snd),
        String.join (items.map (i.warning style path)), .error (Batch.withSpan i.annotate t e)⟩ := by
  obtain ⟨ts', hr', hqueue⟩ := h.read
  have hread : List.Forall₂ (fun line t? => reading line = .ok t?) ((Text.lines text).map String.ofList)
      (ts' ++ some t :: ts) := by
    rw [hl]
    exact List.rel_append hr' (.cons hline hr)
  have hload : Batch.load files false (i.batch style fuel path [] []) =
      ⟨i.batch style fuel path (numbered 1 (ts' ++ some t :: ts)) [], "", .ok ()⟩ := load_of_read hs hp hread
  have hn := Batch.nodup_numbered 1 (ts' ++ some t :: ts)
  have hnumbers : numbered 1 (ts' ++ some t :: ts) =
      queued items ++ (1 + (first.length : Int), t) :: numbered (1 + first.length + 1) ts := by
    rw [Batch.numbered_append, hqueue, ← hr'.length_eq]
    rfl
  rw [hnumbers] at hload hn
  have hrun := runAll_append hd _ hn style path []
  obtain ⟨queue, hfail⟩ := runAll_failed ht (numbered (1 + first.length + 1) ts) style path (1 + first.length)
    (items.map Prod.snd)
  rw [List.nil_append, hfail] at hrun
  dsimp only at hrun
  rw [String.append_empty] at hrun
  exact ⟨queue, runFile_of_error hload hrun⟩

/-! ## What a run leaves behind -/

theorem ofReply_of_ok {act : Action Batch Unit} (h : act b = ⟨s, printed, .ok ()⟩) :
    Result.ofReply (act.guarded b) = ⟨none, printed, ""⟩ := by
  rw [Action.guarded_of_ok (a := ()) (by rw [h]), h]
  rfl

/-- A failure with a notice is reported, and ends the program. -/
theorem ofReply_of_error {act : Action Batch Unit} {n : Notice} (h : act b = ⟨s, printed, .error e⟩)
    (hn : e.notice? = some n) (hf : s.reporter.fatal = true) :
    Result.ofReply (act.guarded b) = ⟨some 1, printed ++ (Reporter.report n s.reporter).printed, ""⟩ := by
  have hanswer : (Reporter.report n s.reporter).answer = .error (.exit (.int 1)) ∨
      (Reporter.report n s.reporter).answer = .error (.mishap .noLine) := by
    by_cases hl : s.reporter.Lost n
    · rw [Reporter.report_of_lost hl]
      exact .inr rfl
    · rw [Reporter.report_eq_of_not_lost hl, hf]
      exact .inl rfl
  rw [Action.guarded_of_notice? (e := e) (by rw [h]) hn, h]
  show Result.ofReply ⟨_, printed ++ (Reporter.report n s.reporter).printed,
    (Reporter.report n s.reporter).answer.map fun _ => none⟩ = _
  obtain ha | ha := hanswer
  · rw [ha]
    rfl
  · rw [ha]
    rfl

/-- Flags never bound the steps by anything but a number, so a failure stays what it is. -/
theorem mapFailure_passed (before : List Flag) (path : String) (behind : List Flag) (act : Action Batch Unit) :
    act.mapFailure (invocationOf before path behind).bound.passed = act := by
  have hpassed : (invocationOf before path behind).bound.passed = id := by
    funext e
    cases hb : (invocationOf before path behind).bound with
    | unnumbered => exact absurd hb (bound_invocationOf before path behind)
    | unbounded | atMost => rfl
  funext b
  rw [hpassed, Action.mapFailure]
  cases ha : (act b).answer <;> simp [Except.mapError, ← ha]

theorem exists_depth_of_done (h : i.Done number lines items) :
    ∃ depth, ∀ fuel, depth ≤ fuel → ∀ item ∈ items, outcomeOf (i.options fuel) item.2.term = .ok item.2 := by
  have heach : ∀ item : Int × Outcome, ∃ depth, ∀ fuel, depth ≤ fuel → i.Yields item.2 →
      outcomeOf (i.options fuel) item.2.term = .ok item.2 := by
    intro item
    by_cases hy : i.Yields item.2
    · obtain ⟨depth, hdepth⟩ := exists_outcomeOf_of_yields hy
      exact ⟨depth, fun fuel hle _ => hdepth fuel hle⟩
    · exact ⟨0, fun _ _ hy' => absurd hy' hy⟩
  obtain ⟨depth, hdepth⟩ := exists_depth_of_forall heach items
  exact ⟨depth, fun fuel hle item hi => hdepth fuel hle item hi (h.yields item hi)⟩

/-! ## Calls -/

/-- A call with flags around a path, in a style and with files at hand. -/
structure Call where
  style : Style
  files : Files
  before : List Flag
  path : String
  behind : List Flag

namespace Call

/-- What a call asks for. -/
def asks (c : Call) : Invocation := invocationOf c.before c.path c.behind

/-- What the program leaves behind when it is called so. -/
def result (c : Call) (fuel : Nat) (input : List String) : Result :=
  run c.style fuel c.files (callOf c.before c.path c.behind) input

/-- The warnings about outcomes, as the call prints them. -/
def warnings (c : Call) (items : List (Int × Outcome)) : String :=
  String.join (items.map (c.asks.warning c.style c.path))

/-- The descriptions of outcomes, each on a line. -/
def descriptions (c : Call) (items : List (Int × Outcome)) : String :=
  String.join (items.map fun item => c.asks.description item.2)

/-- The report of a failure while a line is worked on. -/
def report (c : Call) (n : Notice) (line : String) (number : Int) : String :=
  (Reporter.report n (.onFile c.style c.path (some line) (some number))).printed

/-- The call can be about a file: its path is not the one of the prompt and does not begin with a dash, and there is a
text at the path. -/
structure Reads (c : Call) (text : List Char) : Prop where
  path : c.path ≠ promptPath
  dash : c.path.toList.head? ≠ some '-'
  stores : Stores c.files c.path text

/-- The call stops at the first line that cannot be read.  The terms of the lines before it wait and none was worked
off, and nothing but the report is printed. -/
structure StopsUnread (c : Call) (lines first : List String) (line : String) (e : Failure) : Prop where
  split : ∃ rest, lines = first ++ line :: rest
  unread : reading line = .error e
  ran : ∃ ts, List.Forall₂ (fun line t? => reading line = .ok t?) first ts ∧ ∀ fuel,
    runFile c.files (c.asks.batch c.style fuel c.path [] []) =
      ⟨c.asks.busy c.style fuel c.path (content line) (1 + first.length) (numbered 1 ts) [], "", .error e⟩
  result : ∃ n, e.notice? = some n ∧ ∀ fuel input,
    c.result fuel input = ⟨some 1, c.report n (content line) (1 + first.length), ""⟩

/-- The call stops at the first term without an outcome.  The terms before it print warnings at most, and behind these
nothing but the report of the failure is printed. -/
structure StopsFailed (c : Call) (lines first : List String) (line : String) (t : Term) : Prop where
  split : ∃ rest, lines = first ++ line :: rest
  read : reading line = .ok (some t)
  failed : ∀ o : Outcome, o.term = t → ¬c.asks.Yields o
  result : ∃ items, c.asks.Done 1 first items ∧ ∃ depth, ∀ fuel, depth ≤ fuel → ∃ e n,
    Batch.Fails (c.asks.options fuel) t e ∧ e.notice? = some n ∧ ∀ input,
      c.result fuel input =
        ⟨some 1, c.warnings items ++ c.report n (t.layout c.asks.annotate) (1 + first.length), ""⟩

/-- How a call for a file goes, given the lines of the file. -/
structure AllOrNothing (c : Call) (lines : List String) : Prop where
  /-- When all lines are fine, nothing is printed but warnings and, behind them, the descriptions of all outcomes. -/
  finished : (∀ line ∈ lines, c.asks.Fine line) → ∃ items, c.asks.Done 1 lines items ∧ ∃ depth, ∀ fuel, depth ≤ fuel →
    ∀ input, c.result fuel input = ⟨none, c.warnings items ++ c.descriptions items, ""⟩
  /-- The description of an outcome is the one in a call with the same flags for any file with its line alone. -/
  alone : ∀ line ∈ lines, ∀ o : Outcome, reading line = .ok (some o.term) → c.asks.Yields o → ∀ c' text',
    Reads c' text' → c'.before = c.before → c'.behind = c.behind → (Text.lines text').map String.ofList = [line] →
    ∃ depth, ∀ fuel, depth ≤ fuel → ∀ input,
      c'.result fuel input = ⟨none, c'.warnings [(1, o)] ++ c.asks.description o, ""⟩
  /-- When some line cannot be read, the call stops at the first such line. -/
  unread : (∃ line ∈ lines, ∃ e, reading line = .error e) → ∃ first line e, c.StopsUnread lines first line e
  /-- When all lines can be read and some are not fine, the call stops at the first of these. -/
  failed : (∀ line ∈ lines, ∃ t?, reading line = .ok t?) → (∃ line ∈ lines, ¬c.asks.Fine line) →
    ∃ first line t, c.StopsFailed lines first line t

variable {c : Call}

/-- A call for a file is a guarded run over the file. -/
theorem result_eq (h : c.Reads text) (fuel : Nat) (input : List String) :
    c.result fuel input = .ofReply ((runFile c.files).guarded (c.asks.batch c.style fuel c.path [] [])) := by
  rw [Call.result, run, ofArguments_callOf c.before h.dash c.behind]
  dsimp only
  rw [Invocation.run, file_invocationOf]
  dsimp only
  rw [mapFailure_passed]
  rfl

/-- A file whose terms all have outcomes is described. -/
theorem exists_result_of_done (h : c.Reads text) (hd : c.asks.Done 1 ((Text.lines text).map String.ofList) items) :
    ∃ depth, ∀ fuel, depth ≤ fuel → ∀ input,
      c.result fuel input = ⟨none, c.warnings items ++ c.descriptions items, ""⟩ := by
  obtain ⟨depth, hdepth⟩ := exists_depth_of_done hd
  refine ⟨depth, fun fuel hle input => ?_⟩
  rw [result_eq h]
  exact ofReply_of_ok (runFile_of_done h.stores h.path hd (hdepth fuel hle))

theorem exists_read (h : ∀ line ∈ lines, ∃ t?, reading line = .ok t?) :
    ∃ ts, List.Forall₂ (fun line t? => reading line = .ok t?) lines ts := by
  induction lines with
  | nil => exact ⟨[], .nil⟩
  | cons line lines ih =>
    obtain ⟨⟨t?, hr⟩, hls⟩ := List.forall_mem_cons.mp h
    obtain ⟨ts, hts⟩ := ih hls
    exact ⟨t? :: ts, .cons hr hts⟩

theorem exists_stopsUnread (h : c.Reads text)
    (hunread : ∃ line ∈ (Text.lines text).map String.ofList, ∃ e, reading line = .error e) :
    ∃ first line e, c.StopsUnread ((Text.lines text).map String.ofList) first line e := by
  have hsome : ∃ line ∈ (Text.lines text).map String.ofList, ¬∃ t?, reading line = .ok t? := by
    obtain ⟨line, hl, e, he⟩ := hunread
    refine ⟨line, hl, fun ⟨t?, hr⟩ => ?_⟩
    rw [he] at hr
    cases hr
  obtain ⟨first, line, rest, hl, hread, hline⟩ := exists_first hsome
  obtain ⟨ts, hts⟩ := exists_read hread
  cases he : reading line with
  | ok t? => exact absurd ⟨t?, he⟩ hline
  | error e =>
    obtain ⟨n, hn, -⟩ := notice?_of_termOfLine (Batch.reading_eq_error_iff.mp he).2
    have hrun : ∀ fuel, runFile c.files (c.asks.batch c.style fuel c.path [] []) =
        ⟨c.asks.busy c.style fuel c.path (content line) (1 + first.length) (numbered 1 ts) [], "", .error e⟩ :=
      fun fuel => runFile_of_unread h.stores h.path hl hts he
    refine ⟨first, line, e, ⟨rest, hl⟩, he, ⟨ts, hts, hrun⟩, n, hn, fun fuel input => ?_⟩
    rw [result_eq h, ofReply_of_error (hrun fuel) hn rfl, String.empty_append]
    rfl

theorem exists_stopsFailed (h : c.Reads text) (hends : c.asks.check = true ∨ c.asks.bound ≠ .unbounded)
    (hread : ∀ line ∈ (Text.lines text).map String.ofList, ∃ t?, reading line = .ok t?)
    (hfault : ∃ line ∈ (Text.lines text).map String.ofList, ¬c.asks.Fine line) :
    ∃ first line t, c.StopsFailed ((Text.lines text).map String.ofList) first line t := by
  obtain ⟨first, line, rest, hl, hfine, hline⟩ := exists_first hfault
  obtain ⟨items, hdone⟩ := exists_done hfine 1
  rw [hl] at hread
  have hrest : ∀ line ∈ rest, ∃ t?, reading line = .ok t? := fun line hm => hread line (by simp [hm])
  obtain ⟨t?, hr⟩ := hread line (by simp)
  obtain ⟨ts, hts⟩ := exists_read hrest
  cases t? with
  | none => exact absurd (.inl hr) hline
  | some t =>
    have hnone : ∀ o : Outcome, o.term = t → ¬c.asks.Yields o := by
      rintro o rfl ho
      exact hline (.inr ⟨o, hr, ho⟩)
    have hbounded : (c.asks.options 0).check = true ∨ (c.asks.options 0).maxSteps ≠ none := by
      refine hends.imp_right fun hb hnone => ?_
      change c.asks.bound.limit = none at hnone
      cases hbound : c.asks.bound with
      | unbounded => exact hb hbound
      | atMost | unnumbered =>
        rw [hbound] at hnone
        cases hnone
    obtain ⟨depth, hdepth⟩ := exists_depth_of_done hdone
    obtain ⟨depth', hdepth'⟩ := Batch.exists_depth hbounded t
    refine ⟨first, line, t, ⟨rest, hl⟩, hr, hnone, items, hdone, max depth depth', fun fuel hle => ?_⟩
    have hfuel := hdepth' fuel (by omega)
    cases ht : outcomeOf (c.asks.options fuel) t with
    | ok o =>
      obtain ⟨hterm, ho⟩ := yields_of_outcomeOf ht
      exact absurd ho (hnone o hterm)
    | error e =>
      obtain ⟨n, hn⟩ := Batch.notice?_withSpan ht (fun he => hfuel (he ▸ ht)) c.asks.annotate
      obtain ⟨queue, hrun⟩ := runFile_of_failed h.stores h.path hl hdone (hdepth fuel (by omega)) hr hts ht c.style
      refine ⟨Batch.withSpan c.asks.annotate t e, n,
        Batch.fails_of_settle (Batch.settle_eq_error_iff.mpr ⟨e, ht, rfl⟩), hn, fun input => ?_⟩
      rw [result_eq h, ofReply_of_error hrun hn rfl]
      rfl

/-- **A run over a file describes all of its terms, or it fails and describes none.**  This holds of all flags that
check the terms or bound their steps. -/
theorem all_or_nothing (c : Call) (text : List Char) (h : c.Reads text)
    (hends : c.asks.check = true ∨ c.asks.bound ≠ .unbounded) :
    c.AllOrNothing ((Text.lines text).map String.ofList) := by
  constructor
  case finished =>
    intro hfine
    obtain ⟨items, hdone⟩ := exists_done hfine 1
    exact ⟨items, hdone, exists_result_of_done h hdone⟩
  case alone =>
    intro line _ o hr ho c' text' h' hbefore hbehind hline
    have hasks : c'.asks = { c.asks with file := some c'.path } := by
      rw [asks, hbefore, hbehind]
      exact invocationOf_eq c.before c.path c.behind c'.path
    have hdone : c'.asks.Done 1 ((Text.lines text').map String.ofList) [(1, o)] := by
      rw [hline, hasks]
      exact .term hr ⟨ho.type, ho.value, ho.bound⟩ .nil
    have hdescription : c'.descriptions [(1, o)] = c.asks.description o := by
      rw [descriptions, hasks, List.map_singleton, String.join_cons, String.join_nil, String.append_empty]
      rfl
    rw [← hdescription]
    exact exists_result_of_done h' hdone
  case unread => exact exists_stopsUnread h
  case failed => exact exists_stopsFailed h hends

/-- Without the check a conditional over a unit gets stuck, and the last of two bounds counts. -/
theorem all_or_nothing_for_stuck_term :
    let margin : Batch.Margin := ⟨[], by decide, by simp⟩
    let text := Batch.document .lf true [.term margin (.cond .unit .unit .unit) margin]
    let files : Files := fun path => if path = "terms" then some (Utf8.encode text) else none
    let c : Call := ⟨.plain, files, [.annotate], "terms", [.noCheck, .maxSteps (-5), .maxSteps 3]⟩
    c.Reads text ∧ c.asks.bound ≠ .unbounded ∧ c.AllOrNothing ((Text.lines text).map String.ofList) := by
  intro margin text files c
  have hs : Stores files "terms" text := ⟨by decide, if_pos rfl⟩
  have h : c.Reads text := ⟨by decide, by decide, hs⟩
  have hb : c.asks.bound ≠ .unbounded := by decide
  exact ⟨h, hb, all_or_nothing c text h (.inr hb)⟩

end Call

end CommandLine

end SimplyTyped
