import SimplyTyped.Layout
import SimplyTyped.Notice.Template
import SimplyTyped.Text.Style

/-!
# SimplyTyped.Notice — messages about a line of text

A notice is a message in fragments with the subject it is about, and how far inside the subject the trouble lies.  In
the line that is being worked on the subject is searched for, unless the notice knows its span, and a pointer is drawn
below it.
-/

namespace SimplyTyped

/-- A part of a message, as it is without emphasis and with it. -/
structure Fragment where
  plain : String
  ansi : String
  deriving DecidableEq

namespace Fragment

/-- A part without emphasis. -/
def wording (text : String) : Fragment := ⟨text, text⟩

/-- A part in bold: an excerpt of what the message is about. -/
def excerpt (text : String) : Fragment := ⟨text, Style.ansi.emphasize .bold text⟩

/-- The text of a part in a style. -/
def inStyle (style : Style) (f : Fragment) : String :=
  match style with
  | .plain => f.plain
  | .ansi => f.ansi

end Fragment

/-- A message for the user. -/
structure Notice where
  fragments : List Fragment
  /-- What the message is about; searched for in the line being worked on. -/
  subject : String
  /-- Where in the subject the trouble begins. -/
  start : Int
  /-- Where in the subject the trouble ends. -/
  stop : Int
  /-- Whether the line is shown with a pointer. -/
  pointing : Bool
  /-- Whether the trouble lies in this program. -/
  internal : Bool
  /-- The span in the line, when it is known. -/
  span : Option Span
  deriving DecidableEq

namespace Notice

/-- A notice about all of its subject. -/
def about (subject : String) (fragments : List Fragment) : Notice :=
  { fragments, subject, start := 0, stop := subject.length, pointing := true, internal := false, span := none }

/-- A notice without a subject. -/
def plain (text : String) : Notice := about "" [.wording text]

/-- A notice that begins with its subject in quotes. -/
def quoting (subject rest : String) : Notice :=
  about subject [.wording "'", .excerpt subject, .wording ("'" ++ rest)]

/-- The same notice without a pointer. -/
def unpointed (n : Notice) : Notice := { n with pointing := false }

/-- A notice from a template, which is filled once with the excerpts as they are and once with their emphasis in a
style.  The first excerpt is the subject, and a stop of `-1` stands for its end. -/
def ofTemplate (style : Style) (template : String) (excerpts : List String) (start stop : Int)
    (pointing internal : Bool) : Except Template.Fault Notice := do
  let message ← Template.fill template excerpts
  let emphasized ← Template.fill template (excerpts.map (style.emphasize .bold))
  let subject := excerpts.headD ""
  return { fragments := [⟨message, emphasized⟩], subject, start,
           stop := if stop = -1 then start + subject.length else stop, pointing, internal, span := none }

/-- The message with its excerpts in bold, as far as the style allows. -/
def styledMessage (style : Style) (n : Notice) : String := String.join (n.fragments.map (Fragment.inStyle style))

/-- The message without emphasis. -/
def message (n : Notice) : String := n.styledMessage .plain

/-- The span of the trouble in a line: the known span, or else that of the first occurrence of the subject, at least
one character wide. -/
def spanIn (n : Notice) (line : Option String) : Option Span :=
  match n.span, line with
  | some span, _ => some span
  | none, none => none
  | none, some line =>
    if line.isEmpty || n.subject.isEmpty then none
    else (Text.find? n.subject.toList line.toList).map fun offset =>
      (offset + n.start, offset + (if n.start + 1 ≤ n.stop then n.stop else n.start + 1))

/-- The same notice, seen in a style, but for how its message is cut into fragments. -/
def Alike (style : Style) (n q : Notice) : Prop :=
  n.message = q.message ∧ n.styledMessage style = q.styledMessage style ∧ { n with fragments := q.fragments } = q

/-- A template that begins with its subject in quotes makes the notice that does, whatever the subject is. -/
theorem ofTemplate_quoting {rest : String} (ho : Template.openingBrace ∉ rest.toList)
    (hc : Template.closingBrace ∉ rest.toList) (style : Style) (subject : String) :
    ∃ n, ofTemplate style ("'\x7b\x7d'" ++ rest) [subject] 0 (-1) false false = .ok n ∧
      Alike style n (quoting subject rest).unpointed := by
  rw [ofTemplate, Template.fill_quoting ho hc, List.map_singleton, Template.fill_quoting ho hc]
  refine ⟨_, rfl, ?_, ?_, ?_⟩
  · simp [message, styledMessage, String.join, Fragment.inStyle, unpointed, quoting, about, Fragment.wording,
      Fragment.excerpt, String.append_assoc]
  · cases style <;>
      simp [styledMessage, String.join, Fragment.inStyle, unpointed, quoting, about, Fragment.wording,
        Fragment.excerpt, Style.emphasize, String.append_assoc]
  · simp [unpointed, quoting, about]

end Notice

/-- A line with a span emphasized, and below it a caret at the start of the span and waves up to its end. -/
def pointer (style : Style) (emphasis : Emphasis) (line : String) (span : Span) : String :=
  let text := line.toList
  let emphasize (part : List Char) : String := style.emphasize emphasis (String.ofList part)
  "  " ++ String.ofList (Text.upTo text span.1) ++ emphasize (Text.slice text span.1 span.2)
    ++ String.ofList (Text.fromOn text span.2) ++ "\n"
    ++ "  " ++ String.ofList (Text.repeated ' ' span.1)
    ++ emphasize ('^' :: Text.repeated '~' (span.2 - span.1 - 1))

end SimplyTyped
