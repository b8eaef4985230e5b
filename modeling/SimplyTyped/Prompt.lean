import SimplyTyped.Batch
import SimplyTyped.Tree

/-!
# SimplyTyped.Prompt — commands and terms typed one line at a time

A line that begins with the name of a command is that command, and any other line is a term to check and reduce at
once.  Failures are reported, and the prompt goes on.
-/

namespace SimplyTyped

/-- The state of a prompt. -/
structure Prompt where
  batch : Batch
  /-- The number of lines taken as terms so far. -/
  lineNumber : Int

instance : HasReporter Prompt :=
  ⟨fun p => p.batch.reporter, fun r p => { p with batch := { p.batch with reporter := r } }⟩

namespace Prompt

/-- What a line asks for. -/
inductive Command where
  | nothing
  | showType (text : String)
  | showTree (text : String)
  | toggleAnnotations
  | help
  | endOfInput
  | quit
  | term (line : String)
  deriving DecidableEq

/-- Whether the prompt is left after a command, or nothing was asked. -/
inductive Continuation where
  | nothing
  | proceed
  | leave
  deriving DecidableEq

/-- The letters, digits and underscores that command names are made of. -/
def isNameChar (c : Char) : Bool :=
  ('a' ≤ c && c ≤ 'z') || ('A' ≤ c && c ≤ 'Z') || ('0' ≤ c && c ≤ '9') || c = '_'

/-- The command with a name, for the rest of its line. -/
def named? (name rest : String) : Option Command :=
  match name with
  | "type" => some (.showType rest)
  | "tree" => some (.showTree rest)
  | "annotate" => some .toggleAnnotations
  | "help" => some .help
  | "EOF" => some .endOfInput
  | "exit" => some .quit
  | _ => none

/-- The command of a line.  A question mark stands for the help command, an exclamation mark begins a term. -/
def Command.ofLine (line : String) : Command :=
  let line := Text.trimChars line.toList
  match line with
  | [] => .nothing
  | '?' :: _ => .help
  | '!' :: _ => .term (String.ofList line)
  | line =>
    let rest := String.ofList (Text.trimChars (line.dropWhile isNameChar))
    (named? (String.ofList (line.takeWhile isNameChar)) rest).getD (.term (String.ofList line))

/-- What is printed when the prompt opens. -/
def greeting : String :=
  "Simply-typed lambda calculus interpreter :: Python backend\nType '?' or 'help' for more information."

/-- What is printed before each line is read. -/
def sign : String := "> "

/-- The help of the prompt. -/
def helpText : String :=
  "\n".intercalate
    ["Welcome to the stlc interpreter!",
      "",
      "Terms are typed as JSON tagged records, one per line. For example, the identity",
      "function on booleans applied to True is",
      "",
      "  \x7b\"tag\": \"TmApp\", \"contents\": [\x7b\"tag\": \"TmFun\", \"contents\": "
        ++ "[\"x\", \x7b\"tag\": \"TyBool\"\x7d,",
      "   \x7b\"tag\": \"TmVar\", \"contents\": \"x\"\x7d]\x7d, \x7b\"tag\": \"TmTrue\"\x7d]\x7d",
      "",
      "Each term is typechecked, then evaluated call-by-name. 'type TERM' only checks,",
      "'tree TERM' shows the syntax tree and 'annotate' toggles parameter types."]

/-- An action on the batch. -/
def onBatch {α : Type} (act : Action Batch α) : Action Prompt α :=
  act.onPart Prompt.batch fun b p => { p with batch := b }

/-- Checks and reduces the term of a line and describes the outcome. -/
def runTerm (line : String) : Action Prompt Unit := do
  Action.modify fun p => { p with lineNumber := p.lineNumber + 1 }
  let p ← Action.get
  onBatch (Batch.add line p.lineNumber)
  onBatch Batch.run
  let p ← Action.get
  if !p.batch.outcomes.isEmpty then
    let text ← onBatch Batch.pop
    Action.print text

/-- Prints the type of the term in a text. -/
def printType (text : String) : Action Prompt Unit := do
  let t ← Action.ofExcept (Record.termOfLine text)
  let ty ← Action.ofExcept (typeOf t)
  Action.print ty.layout

/-- Prints the tree of the term in a text. -/
def printTree (text : String) : Action Prompt Unit := do
  let t ← Action.ofExcept (Record.termOfLine text)
  Action.print t.tree

/-- The prompt with the printing of parameter types turned on or off. -/
def toggled (p : Prompt) : Prompt :=
  { p with batch := { p.batch with options := { p.batch.options with annotate := !p.batch.options.annotate } } }

/-- Carries out a command. -/
def perform : Command → Action Prompt Continuation
  | .nothing => pure .nothing
  | .showType text => do
    let _ ← Action.guarded (printType text)
    return .proceed
  | .showTree text => do
    let _ ← Action.guarded (printTree text)
    return .proceed
  | .toggleAnnotations => do
    Action.modify toggled
    let p ← Action.get
    Action.print ("annotations " ++ if p.batch.options.annotate then "on" else "off")
    return .proceed
  | .help => do
    Action.print helpText
    return .proceed
  | .endOfInput => do
    Action.print ""
    return .leave
  | .quit => return .leave
  | .term line => do
    let _ ← Action.guarded (runTerm line)
    return .proceed

/-- Carries out the command of a line. -/
def onLine (line : String) : Action Prompt Continuation := perform (Command.ofLine line)

/-- The prompt of a reporter under options. -/
def start (reporter : Reporter) (options : Options) : Prompt :=
  ⟨Batch.start reporter Batch.promptPath true options, 0⟩

/-- The dialogue over the lines of an input, whose end counts as the command to leave. -/
def dialogue : List String → Action Prompt Unit
  | [] => do
    let _ ← withSign (onLine "EOF")
    return ()
  | line :: rest => do
    match ← withSign (onLine line) with
    | .leave => return ()
    | _ => dialogue rest
where
  withSign (act : Action Prompt Continuation) : Action Prompt Continuation := fun p =>
    let r := act p
    { r with printed := sign ++ r.printed }

end Prompt

end SimplyTyped
