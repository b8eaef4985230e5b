import SimplyTyped.CommandLine.Arguments
import SimplyTyped.Prompt

/-!
# SimplyTyped.CommandLine — the program as a function of its arguments and input

With a file the program works off all terms of the file and then describes the outcomes; without one it opens a prompt.
The first error of a file ends the program before anything is described.
-/

namespace SimplyTyped.CommandLine

/-- How to call the program. -/
def usage : String := "usage: stlc [-h] [--annotate] [--no-check] [--max-steps MAX_STEPS] [file]"

/-- The help of the program. -/
def helpText : String :=
  "\n".intercalate
    [usage,
      "",
      "Simply-typed lambda calculus interpreter.",
      "",
      "positional arguments:",
      "  file                  file of encoded terms to run (if empty, goes to",
      "                        command-line mode)",
      "",
      "options:",
      "  -h, --help            show this help message and exit",
      "  --annotate            print abstraction parameter types",
      "  --no-check            evaluate without typechecking",
      "  --max-steps MAX_STEPS",
      "                        give up on terms taking more reduction steps",
      ""]

/-- What a run of the program leaves behind. -/
structure Result where
  /-- The exit code, when the program does not just return. -/
  exit : Option Int
  out : String
  err : String
  deriving DecidableEq

/-- The number of steps after which a term is given up. -/
def StepBound.limit : StepBound → Option Int
  | unbounded => none
  | atMost n => some n
  | unnumbered => some 0

/-- The options of an invocation. -/
def Invocation.options (i : Invocation) (fuel : Nat) : Options := ⟨i.annotate, i.check, i.bound.limit, fuel⟩

/-- The failure of a term that passes the bound; the first step shows when the bound is no number. -/
def StepBound.passed (bound : StepBound) (e : Failure) : Failure :=
  match bound, e with
  | .unnumbered, .stepLimit _ _ => .mishap .noBound
  | _, e => e

/-- Prints the descriptions of outcomes. -/
def printOutcomes (b : Batch) : List Outcome → Action Batch Unit
  | [] => pure ()
  | o :: rest => do
    Action.print (b.describe o)
    printOutcomes b rest

/-- Works off a file and describes the outcomes. -/
def runFile (files : Batch.Files) : Action Batch Unit := do
  Batch.load files false
  Batch.run
  let b ← Action.get
  printOutcomes b b.outcomes

/-- Opens a prompt over the lines of an input. -/
def runPrompt (input : List String) : Action Prompt Unit := do
  Action.print Prompt.greeting
  Prompt.dialogue input

/-- The number that a status leaves behind. -/
def exitCode : Json → Option Int
  | .null => none
  | .int n => some n
  | .bool b => some (if b then 1 else 0)
  | _ => some 1

/-- The result of a guarded run. -/
def Result.ofReply {σ α : Type} (r : Reply σ α) : Result :=
  match r.answer with
  | .ok _ => ⟨none, r.printed, ""⟩
  | .error (.exit status) => ⟨exitCode status, r.printed, ""⟩
  | .error _ => ⟨some 1, r.printed, ""⟩

/-- Carries out an invocation. -/
def Invocation.run (style : Style) (fuel : Nat) (files : Batch.Files) (input : List String) (i : Invocation) :
    Result :=
  let reporter := Reporter.start style true
  let options := i.options fuel
  match i.file with
  | some path =>
    .ofReply (((runFile files).mapFailure i.bound.passed).guarded (Batch.start reporter path false options))
  | none => .ofReply ((runPrompt input).guarded (Prompt.start reporter options))

/-- Runs the program. -/
def run (style : Style) (fuel : Nat) (files : Batch.Files) (arguments input : List String) : Result :=
  match Request.ofArguments arguments with
  | .help => ⟨some 0, helpText, ""⟩
  | .misuse message => ⟨some 2, "", usage ++ "\nstlc: error: " ++ message ++ "\n"⟩
  | .run i => i.run style fuel files input

end SimplyTyped.CommandLine
