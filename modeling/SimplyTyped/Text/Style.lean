/-!
# SimplyTyped.Text.Style — emphasis in terminal output

Emphasis comes from a package for coloured terminal output, and only what the reports need of it stands here.  Taken
from the package are the control sequences for bold, red and magenta text, that bold stands in front of the colour,
and the one sequence that ends them; and that every text stays as it is when the package finds that colours are not
wanted.  What it looks at to find that out is left outside; the answer is the style, the same throughout a run.
-/

namespace SimplyTyped

/-- Whether a terminal is told about emphasis. -/
inductive Style where
  | plain
  | ansi
  deriving DecidableEq

/-- A kind of emphasis. -/
inductive Emphasis where
  | bold
  | boldRed
  | boldMagenta
  deriving DecidableEq

/-- The control sequences that begin an emphasis. -/
def Emphasis.opening : Emphasis → String
  | bold => "\x1b[1m"
  | boldRed => "\x1b[1m\x1b[31m"
  | boldMagenta => "\x1b[1m\x1b[35m"

/-- A text with an emphasis, which stays away in plain style. -/
def Style.emphasize (style : Style) (emphasis : Emphasis) (text : String) : String :=
  match style with
  | plain => text
  | ansi => emphasis.opening ++ text ++ "\x1b[0m"

end SimplyTyped
