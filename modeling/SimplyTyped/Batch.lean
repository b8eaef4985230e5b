import SimplyTyped.Evaluation
import SimplyTyped.Reporter
import SimplyTyped.Text.Blank
import SimplyTyped.Text.Lines

/-!
# SimplyTyped.Batch — a queue of terms from a file or a prompt, worked off in order

Lines hold one record each; blank lines and comments are skipped.  A term waits under its line number until the queue
is worked off, and then it leaves the queue whether it succeeds or not.  A term that fails ends the run, and the terms
behind it keep waiting.
-/

namespace SimplyTyped

/-- How terms are treated. -/
structure Options where
  /-- Whether binders are printed with their types. -/
  annotate : Bool
  /-- Whether terms are typed before they are reduced. -/
  check : Bool
  /-- The number of steps after which a term is given up. -/
  maxSteps : Option Int
  /-- The depth of recursion allowed to a reduction without a bound on its steps. -/
  fuel : Nat

/-- A term that was worked off. -/
structure Outcome where
  term : Term
  /-- Its type, when it was checked. -/
  type : Option Ty
  value : Term
  steps : Nat
  deriving DecidableEq

/-- Terms waiting under their line numbers, and the outcomes of those before them. -/
structure Batch where
  reporter : Reporter
  /-- The path that reports name. -/
  path : String
  options : Options
  queue : List (Int × Term)
  outcomes : List Outcome

instance : HasReporter Batch := ⟨Batch.reporter, fun r b => { b with reporter := r }⟩

namespace Batch

/-- The path that stands for the prompt; no file can have it. -/
def promptPath : String := "<in>"

/-- The start of a comment. -/
def commentMark : String := ";;"

/-- A line without surrounding blanks; empty for a comment. -/
def content (line : String) : String :=
  let line := Text.trim line
  if commentMark.toList.isPrefixOf line.toList then "" else line

/-- A term under a line number: in the place of the one with that number, or last. -/
def enqueue (number : Int) (t : Term) : List (Int × Term) → List (Int × Term)
  | [] => [(number, t)]
  | (n, u) :: rest => if n = number then (number, t) :: rest else (n, u) :: enqueue number t rest

/-- A term under a new number comes last. -/
theorem enqueue_of_notMem {number : Int} {queue : List (Int × Term)} (t : Term)
    (h : number ∉ queue.map Prod.fst) : enqueue number t queue = queue ++ [(number, t)] := by
  induction queue with
  | nil => rfl
  | cons item rest ih =>
    rw [List.map_cons, List.mem_cons, not_or] at h
    rw [enqueue, if_neg fun h' => h.1 h'.symm, ih h.2, List.cons_append]

/-- The queue without the term under a line number. -/
def dequeue (number : Int) (queue : List (Int × Term)) : List (Int × Term) :=
  queue.filter fun item => item.1 ≠ number

/-- Leaving the queue from its front uncovers the terms behind, when no other term has the number. -/
theorem dequeue_cons {number : Int} {queue : List (Int × Term)} (t : Term) (h : number ∉ queue.map Prod.fst) :
    dequeue number ((number, t) :: queue) = queue := by
  rw [dequeue, List.filter_cons_of_neg (by simp), List.filter_eq_self]
  intro item hi
  simpa using fun h' : item.1 = number => h (h' ▸ List.mem_map_of_mem hi)

/-- The batch with a line being worked on. -/
def working (line : String) (number : Int) (b : Batch) : Batch :=
  { b with reporter := b.reporter.registerLine b.path (some line) (some number) }

/-- The batch with no line being worked on. -/
def idle (b : Batch) : Batch := { b with reporter := b.reporter.removeLine b.path }

/-- The text of a term under the options. -/
def format (b : Batch) (t : Term) : String := t.layout b.options.annotate

/-- Queues the term of a line. -/
def add (line : String) (number : Int) : Action Batch Unit :=
  let line := content line
  if line.isEmpty then pure ()
  else do
    Action.modify (working line number)
    let t ← Action.ofExcept (Record.termOfLine line)
    Action.modify fun b => { b with queue := enqueue number t b.queue }
    Action.modify idle

/-- Checks and reduces a term; a value that is none is warned about. -/
def execute (t : Term) : Action Batch Outcome := do
  let b ← Action.get
  let ty ← Action.ofExcept (if b.options.check then (typeOf t).map some else .ok none)
  let (v, steps) ← Action.ofExcept (evaluate b.options.fuel b.options.maxSteps t)
  if !v.isValue then
    Action.onReporter
      (Reporter.warn (.quoting (b.format v) " is stuck and cannot be reduced to a value"))
  return ⟨t, ty, v, steps⟩

/-- Checks and reduces what is given.  A type gets no further than to the check, or to the question whether it is a
value. -/
def executeDatum (v : Datum) : Action Batch Outcome := do
  match v with
  | .term t => execute t
  | .type ty =>
    let b ← Action.get
    Action.fail (.mishap (if b.options.check then .termExpected ty else .lacks ty "is_value"))

/-- A typing failure with the span of the culprit in the text of the term. -/
def withSpan (annotate : Bool) (t : Term) : Failure → Failure
  | .typing e _ => .typing e (t.spanAt annotate e.culprit)
  | e => e

/-- Works off one queued term. -/
def runOne (number : Int) (t : Term) : Action Batch Unit := do
  let b ← Action.get
  Action.modify (working (b.format t) number)
  Action.afterwards
    (do
      let o ← Action.mapFailure (withSpan b.options.annotate t) (execute t)
      Action.modify fun b => { b with outcomes := b.outcomes ++ [o] })
    fun b => { b with queue := dequeue number b.queue }
  Action.modify idle

/-- Works off terms in order, up to the first failure. -/
def runAll : List (Int × Term) → Action Batch Unit
  | [] => pure ()
  | (number, t) :: rest => do
    runOne number t
    runAll rest

/-- Works off the queue. -/
def run : Action Batch Unit := do
  let b ← Action.get
  runAll b.queue

/-- An outcome on one line. -/
def describe (b : Batch) (o : Outcome) : String :=
  b.format o.value
    ++ (match o.type with
      | some ty => " : " ++ ty.layout
      | none => "")
    ++ "  (" ++ o.steps.repr ++ " step" ++ (if o.steps = 1 then "" else "s") ++ ")"

/-- Describes the outcome at a position; a negative position counts from the end. -/
def describeAt (index : Int) : Action Batch String := do
  let b ← Action.get
  let n := if index < 0 then index + b.outcomes.length else index
  match if n < 0 then none else b.outcomes[n.toNat]? with
  | some o => return b.describe o
  | none => Action.fail (.mishap .noSuchOutcome)

/-- Takes the last outcome off and describes it. -/
def pop : Action Batch String := do
  let b ← Action.get
  match b.outcomes.getLast? with
  | some o =>
    Action.modify fun b => { b with outcomes := b.outcomes.dropLast }
    return b.describe o
  | none => Action.fail (.mishap .noOutcome)

/-- Queues the terms of lines that follow each other from a line number on. -/
def addLines (number : Int) : List String → Action Batch Unit
  | [] => pure ()
  | line :: rest => do
    add line number
    addLines (number + 1) rest

/-- The bytes of the files that can be read. -/
abbrev Files := String → Option (List UInt8)

/-- The lines of the file at a path. -/
def sourceAt (files : Files) (path : String) : Except Failure Source :=
  if '\x00' ∈ path.toList then .error (.mishap .nulInPath)
  else
    match files path with
    | some bytes => .ok (Source.ofBytes bytes)
    | none => .error (.unreadable path)

/-- An empty batch for a path.  At the prompt no error is fatal. -/
def start (reporter : Reporter) (path : String) (interactive : Bool) (options : Options) : Batch :=
  let reporter := reporter.registerPath path
  ⟨if interactive then { reporter with fatal := false } else reporter, path, options, [], []⟩

/-- Queues the terms of the batch's file.  The path of the prompt is for the prompt alone, which has no file. -/
def load (files : Files) (interactive : Bool) : Action Batch Unit := do
  let b ← Action.get
  if b.path = promptPath then
    if !interactive then Action.fail .reservedPath
  else do
    let source ← Action.ofExcept (sourceAt files b.path)
    addLines 1 source.lines
    match source.fault with
    | some fault => Action.fail (.mishap (.notText fault))
    | none => pure ()

end Batch

end SimplyTyped
