import SimplyTyped.Text.Quoted
import SimplyTyped.Text.WholeNumber

/-!
# SimplyTyped.CommandLine.Arguments — the arguments of the program

Long options may be shortened as long as they stay unique, and take a value behind an equals sign or, where they need
one, as the next argument.  Short options may stand together behind one dash.  Everything else that begins with a dash
is an unknown option, unless it looks like a negative number or holds a space; after `--` there are no options.  The
first plain argument is the file.
-/

namespace SimplyTyped.CommandLine

/-- The bound that is asked for on the steps of a term. -/
inductive StepBound where
  | unbounded
  | atMost (n : Int)
  /-- Two dashes stand in place of the number. -/
  | unnumbered
  deriving DecidableEq

/-- What the arguments ask for. -/
structure Invocation where
  file : Option String
  annotate : Bool
  check : Bool
  bound : StepBound
  deriving DecidableEq

/-- How the arguments were understood. -/
inductive Request where
  | run (invocation : Invocation)
  | help
  | misuse (message : String)
  deriving DecidableEq

/-- An option. -/
inductive Switch where
  | help
  | annotate
  | noCheck
  | maxSteps
  deriving DecidableEq

/-- The option with its spellings, for messages. -/
def Switch.title : Switch → String
  | help => "-h/--help"
  | annotate => "--annotate"
  | noCheck => "--no-check"
  | maxSteps => "--max-steps"

/-- Every spelling of every option. -/
def spellings : List (String × Switch) :=
  [("-h", .help), ("--help", .help), ("--annotate", .annotate), ("--no-check", .noCheck),
   ("--max-steps", .maxSteps)]

/-- The option with a spelling. -/
def exactly? (spelling : String) : Option Switch := (spellings.find? fun s => s.1 = spelling).map Prod.snd

/-- What an argument is on its own. -/
inductive Token where
  | plain (text : String)
  /-- The two dashes after which there are no options. -/
  | endOfOptions
  /-- An option, with the value behind an equals sign. -/
  | switch (option : Switch) (value : Option String)
  /-- The short help option with the text behind it. -/
  | cluster (text : List Char)
  | unknown (text : String)
  deriving DecidableEq

/-- A text cut at its first equals sign. -/
def cutAtEquals (text : List Char) : List Char × Option (List Char) :=
  match text.dropWhile (· ≠ '=') with
  | [] => (text, none)
  | _ :: value => (text.takeWhile (· ≠ '='), some value)

/-- A plain argument if a text looks like a negative number or holds a space, and an unknown option otherwise. -/
def leftover (text : String) : Token :=
  if Text.looksNegative text || text.toList.contains ' ' then .plain text else .unknown text

/-- The token of an argument that begins with a dash and is no option by itself. -/
def dashedToken (text : String) : Except String Token :=
  let (name, value) := cutAtEquals text.toList
  match value, exactly? (String.ofList name) with
  | some value, some option =>
    .ok (if name = ['-', 'h'] then .cluster value else .switch option (some (String.ofList value)))
  | value, _ =>
    match text.toList with
    | '-' :: '-' :: _ =>
      match spellings.filter fun s => name.isPrefixOf s.1.toList with
      | [] => .ok (leftover text)
      | [(_, option)] => .ok (.switch option (value.map String.ofList))
      | several =>
        .error ("ambiguous option: " ++ text ++ " could match " ++ ", ".intercalate (several.map Prod.fst))
    | '-' :: 'h' :: rest => .ok (.cluster rest)
    | _ => .ok (leftover text)

/-- The token of an argument before the end of the options. -/
def token (text : String) : Except String Token :=
  match text.toList with
  | '-' :: _ :: _ =>
    match exactly? text with
    | some option => .ok (.switch option none)
    | none => dashedToken text
  | _ => .ok (.plain text)

/-- The tokens of all arguments. -/
def tokens : List String → Except String (List Token)
  | [] => .ok []
  | text :: rest =>
    if text = "--" then .ok (.endOfOptions :: rest.map .plain)
    else do
      let t ← token text
      let ts ← tokens rest
      return t :: ts

/-- Whether the file argument is still to come. -/
inductive FilePlace where
  | pending
  /-- It was the token before, so that the end of the options belongs to it. -/
  | justTaken
  | taken
  deriving DecidableEq

/-- The message about an option. -/
def about (option : Switch) (text : String) : String := "argument " ++ option.title ++ ": " ++ text

/-- The message about a value for an option that takes none. -/
def ignoredValue (option : Switch) (value : String) : String :=
  about option ("ignored explicit argument " ++ Text.quoted value)

/-- The request of the text behind the short help option: help when it names the option again and again, and else what
comes behind that is a value. -/
def clusterRequest : List Char → Request
  | ['h'] => .help
  | 'h' :: rest => clusterRequest rest
  | value => .misuse (ignoredValue .help (String.ofList value))

/-- The invocation with a bound on the steps.  Two dashes mark the end of a value, and there is none before them. -/
def withMaxSteps (value : String) (invocation : Invocation) : Except Request Invocation :=
  if value = "--" then .ok { invocation with bound := .unnumbered }
  else
    match Text.wholeNumber? value with
    | some n => .ok { invocation with bound := .atMost n }
    | none => .error (.misuse (about .maxSteps ("invalid int value: " ++ Text.quoted value)))

/-- The invocation after an option without a value of its own. -/
def withFlag (option : Switch) (invocation : Invocation) : Except Request Invocation :=
  match option with
  | .help => .error .help
  | .annotate => .ok { invocation with annotate := true }
  | .noCheck => .ok { invocation with check := false }
  | .maxSteps => .error (.misuse (about .maxSteps "expected one argument"))

/-- Takes the tokens in order; `extras` are the arguments that nothing takes. -/
def take (invocation : Invocation) (place : FilePlace) (extras : List String) : List Token → Request
  | [] =>
    if extras.isEmpty then .run invocation
    else .misuse ("unrecognized arguments: " ++ " ".intercalate extras)
  | .plain text :: rest =>
    if place = .pending then take { invocation with file := some text } .justTaken extras rest
    else take invocation .taken (extras ++ [text]) rest
  | .endOfOptions :: rest =>
    if place = .taken then take invocation .taken (extras ++ ["--"]) rest
    else take invocation (if place = .pending then .pending else .taken) extras rest
  | .unknown text :: rest => take invocation (later place) (extras ++ [text]) rest
  | .cluster text :: _ => clusterRequest text
  | .switch .maxSteps none :: .plain value :: rest =>
    match withMaxSteps value invocation with
    | .ok invocation => take invocation (later place) extras rest
    | .error request => request
  | .switch .maxSteps (some value) :: rest =>
    match withMaxSteps value invocation with
    | .ok invocation => take invocation (later place) extras rest
    | .error request => request
  | .switch option (some value) :: _ => .misuse (ignoredValue option value)
  | .switch option none :: rest =>
    match withFlag option invocation with
    | .ok invocation => take invocation (later place) extras rest
    | .error request => request
where
  /-- The place of the file after another token. -/
  later : FilePlace → FilePlace
    | .pending => .pending
    | _ => .taken

/-- The request that arguments make. -/
def Request.ofArguments (arguments : List String) : Request :=
  match tokens arguments with
  | .error message => .misuse message
  | .ok ts => take ⟨none, false, true, .unbounded⟩ .pending [] ts

end SimplyTyped.CommandLine
