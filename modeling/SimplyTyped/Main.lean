import SimplyTyped.CommandLine

/-!
# SimplyTyped.Main — the program

The files, the terminal and the environment are read and written here; what is printed is decided elsewhere.
-/

open SimplyTyped

namespace SimplyTyped.Main

/-- Fuel that no finished reduction uses up. -/
def fuel : Nat := 4611686018427387904

/-- Emphasis, unless it is turned off or the output is no terminal. -/
def detectStyle : IO Style := do
  let isSet (name : String) : IO Bool := do
    return ((← IO.getEnv name).getD "") ≠ ""
  if ← isSet "NO_COLOR" then return .plain
  if ← isSet "FORCE_COLOR" then return .ansi
  if ← (← IO.getStdout).isTty then return .ansi else return .plain

/-- The files at hand: the one at a path, when it can be read. -/
def filesAt (path : String) : IO Batch.Files := do
  if '\x00' ∈ path.toList then return fun _ => none
  try
    let bytes ← IO.FS.readBinFile path
    return fun p => if p = path then some bytes.toList else none
  catch _ => return fun _ => none

/-- Prints a text at once. -/
def put (text : String) : IO Unit := do
  let out ← IO.getStdout
  out.putStr text
  out.flush

/-- The line of an input without its end; the end of the input stands for the command to leave. -/
def commandOf (line : String) : String :=
  if line.isEmpty then "EOF" else if line.endsWith "\n" then (line.dropEnd 1).toString else line

/-- Reads and carries out lines until the prompt is left. -/
partial def converse (p : Prompt) : IO UInt32 := do
  put Prompt.sign
  let line ← (← IO.getStdin).getLine
  let r := (Prompt.onLine (commandOf line)).guarded p
  put r.printed
  match r.answer with
  | .ok (some .leave) => return 0
  | .ok _ => converse r.state
  | .error _ => return 1

end SimplyTyped.Main

/-- Runs the program on its arguments. -/
def main (arguments : List String) : IO UInt32 := do
  let style ← Main.detectStyle
  match CommandLine.Request.ofArguments arguments with
  | .run invocation =>
    match invocation.file with
    | some path =>
      let files ← Main.filesAt path
      finish (CommandLine.run style Main.fuel files arguments [])
    | none =>
      Main.put (Prompt.greeting ++ "\n")
      Main.converse (Prompt.start (Reporter.start style true) (invocation.options Main.fuel))
  | _ => finish (CommandLine.run style Main.fuel (fun _ => none) arguments [])
where
  /-- Writes what a run leaves behind. -/
  finish (result : CommandLine.Result) : IO UInt32 := do
    Main.put result.out
    (← IO.getStderr).putStr result.err
    return (result.exit.getD 0).toNat.toUInt32
