import SimplyTyped.Action

/-!
# SimplyTyped.Reporter — the lines being worked on, and the reports about them

A reporter knows for each path the line being worked on, in the order in which paths were first registered.  Reports
are about the first line that is there and not empty.  After an error report the lines are forgotten, or, with a fatal
reporter, the program ends.
-/

namespace SimplyTyped

/-- A path with the line being worked on and its number, when there is one. -/
structure Entry where
  path : String
  line : Option String
  number : Option Int
  deriving DecidableEq

/-- The state of the reports. -/
structure Reporter where
  style : Style
  /-- Whether an error report ends the program. -/
  fatal : Bool
  entries : List Entry

namespace Reporter

/-- A reporter without paths. -/
def start (style : Style) (fatal : Bool) : Reporter := ⟨style, fatal, []⟩

/-- An entry in the place of the one with its path, or behind all others. -/
def place (entry : Entry) : List Entry → List Entry
  | [] => [entry]
  | e :: rest => if e.path = entry.path then entry :: rest else e :: place entry rest

/-- A path keeps its place; a new one comes behind all others. -/
theorem paths_place (entry : Entry) (entries : List Entry) :
    (place entry entries).map Entry.path =
      if entry.path ∈ entries.map Entry.path then entries.map Entry.path
      else entries.map Entry.path ++ [entry.path] := by
  induction entries with
  | nil => simp [place]
  | cons e rest ih =>
    rw [place]
    by_cases h : e.path = entry.path
    · simp [h]
    · have h' : ¬entry.path = e.path := fun h'' => h h''.symm
      rw [if_neg h, List.map_cons, ih, List.map_cons]
      by_cases hm : entry.path ∈ rest.map Entry.path <;> simp [hm, h']

/-- The reporter with a line for a path. -/
def registerLine (path : String) (line : Option String) (number : Option Int) (r : Reporter) : Reporter :=
  { r with entries := place ⟨path, line, number⟩ r.entries }

/-- The reporter with a path that has no line. -/
def registerPath (path : String) (r : Reporter) : Reporter := r.registerLine path none none

/-- The reporter without the line of a path. -/
def removeLine (path : String) (r : Reporter) : Reporter := r.registerLine path none none

/-- The reporter with all paths and no lines. -/
def forgetLines (r : Reporter) : Reporter :=
  { r with entries := r.entries.map fun e => ⟨e.path, none, none⟩ }

/-- Forgetting the lines keeps the paths. -/
theorem paths_forgetLines (r : Reporter) : r.forgetLines.entries.map Entry.path = r.entries.map Entry.path := by
  simp [forgetLines]

/-- The line of an entry, when there is one and it is not empty. -/
def Entry.text? (e : Entry) : Option String := e.line.filter fun line => !line.isEmpty

/-- The first line that is not empty, with its number. -/
def current (r : Reporter) : Option (String × Option Int) :=
  r.entries.findSome? fun e => (Entry.text? e).map fun line => (line, e.number)

/-- A line number, or the word for none. -/
def numberText (number : Option Int) : String :=
  match number with
  | some n => n.repr
  | none => "None"

/-- Prints a warning with the place it is about. -/
def warn (n : Notice) : Action Reporter Unit := do
  let r ← Action.get
  let path := (r.entries.head?.map Entry.path).getD "<stlc>"
  let line := r.current.map Prod.fst
  let number := r.current.bind Prod.snd
  let span := n.spanIn line
  let column := (span.map Prod.fst).getD 0
  Action.print (r.style.emphasize .bold (path ++ ":" ++ numberText number ++ ":" ++ column.repr ++ ": ")
    ++ r.style.emphasize .boldMagenta "warning: " ++ n.styledMessage r.style)
  match line, span with
  | some line, some span =>
    if n.pointing && !n.internal then Action.print (pointer r.style .boldMagenta line span)
  | _, _ => pure ()

/-- The lines being worked on, each below its path and number. -/
def trace (r : Reporter) : String :=
  let lines := r.entries.filterMap fun e => (Entry.text? e).map fun line =>
    "  File '" ++ e.path ++ "', line " ++ numberText e.number ++ ":\n    " ++ line ++ "\n"
  (if 1 < lines.length then "Traceback:\n" else "") ++ String.join lines

/-- Prints an error below the lines being worked on, with a pointer where one can be drawn. -/
def report (n : Notice) : Action Reporter Unit := do
  let r ← Action.get
  Action.print (r.trace ++ (if n.internal then r.style.emphasize .boldRed "[internal] " else "")
    ++ r.style.emphasize .boldRed "error: " ++ n.styledMessage r.style)
  let line := r.current.map Prod.fst
  match n.spanIn line with
  | some span =>
    if n.pointing && !n.internal then
      match line with
      | some line => Action.print (pointer r.style .boldRed line span)
      | none => Action.fail (.mishap .noLine)
  | none => pure ()
  if r.fatal then Action.fail (.exit (.int 1))
  Action.modify forgetLines

/-- Reports a failure.  An exit goes on; a mishap is reported and goes on. -/
def absorb (e : Failure) : Action Reporter Unit :=
  match e with
  | .mishap m => do
    report m.notice
    Action.fail e
  | e =>
    match e.notice? with
    | some n => report n
    | none => Action.fail e

end Reporter

/-- States that hold a reporter. -/
class HasReporter (σ : Type) where
  reporter : σ → Reporter
  withReporter : Reporter → σ → σ

instance : HasReporter Reporter := ⟨id, fun r _ => r⟩

namespace Action

variable {σ α : Type} [HasReporter σ]

/-- An action on the reporter. -/
def onReporter (act : Action Reporter α) : Action σ α :=
  act.onPart HasReporter.reporter HasReporter.withReporter

/-- An action whose failure is reported; the answer is absent when the report disposes of it. -/
def guarded (act : Action σ α) : Action σ (Option α) := fun s =>
  let r := act s
  match r.answer with
  | .ok a => ⟨r.state, r.printed, .ok (some a)⟩
  | .error e =>
    let r' := (onReporter (Reporter.absorb e) : Action σ Unit) r.state
    ⟨r'.state, r.printed ++ r'.printed, r'.answer.map fun _ => none⟩

end Action

end SimplyTyped
