import SimplyTyped.FullForm
import SimplyTyped.Json.Reader
import SimplyTyped.Json.Writer
import SimplyTyped.Notice
import SimplyTyped.Record
import SimplyTyped.Text.Utf8
import SimplyTyped.Typing

/-!
# SimplyTyped.Failure — why an operation stops

Most failures are the user's and have a notice.  A mishap is not foreseen in the dialogue with the user; it has a kind
and a text, and it is reported as internal.
-/

namespace SimplyTyped

/-- The wording of a flaw, after the record in quotes. -/
def Record.Flaw.message : Record.Flaw → String
  | untagged => " is not a tagged term or type record"
  | contentsForbidden => " should have no contents"
  | fieldCount expected => " should have " ++ expected.repr ++ " field(s) in contents"
  | identifierExpected field => " should have an identifier as " ++ field
  | typeExpected field => " should have a type as " ++ field
  | termExpected field => " should have a term as " ++ field
  | bindingsExpected => " is not a list of bindings"
  | bindingExpected => " is not an [identifier, type] binding"
  | boundTypeExpected => " should bind a type"

/-- The notice of a record at fault. -/
def Record.Fault.notice (f : Record.Fault) : Notice := (Notice.quoting f.record.write f.flaw.message).unpointed

namespace Typing

/-- The text of a part of a complaint. -/
def Part.text : Part → String
  | name x => x
  | term t => t.layout false

/-- Wordings with texts between them; texts for which no wording follows are left out. -/
def weave : List String → List String → List Fragment
  | wording :: next :: rest, text :: texts => .wording wording :: .excerpt text :: weave (next :: rest) texts
  | wording :: _, _ => [.wording wording]
  | [], _ => []

/-- The notice of a complaint that has a part for each role; its first part is the subject. -/
def Complaint.woven (c : Complaint) : Notice :=
  let texts := c.parts.map Part.text
  .about (texts.headD "") (weave c.rule.wordings texts)

/-- The notice of a complaint, or the role without a part. -/
def Complaint.notice (c : Complaint) : Except Template.Fault Notice :=
  if c.parts.length < c.rule.roles.length then .error (.noExcerpt c.parts.length) else .ok c.woven

/-- The notice of a typing fault. -/
def Fault.notice (f : Fault) : Notice := f.complaint.woven

end Typing

/-- A trouble outside the dialogue with the user. -/
inductive Mishap where
  | template (fault : Template.Fault)
  | nulInPath
  | noOutcome
  | noSuchOutcome
  | notText (fault : Utf8.Fault)
  /-- A span to point at, and no line to show. -/
  | noLine
  | termExpected (ty : Ty)
  | typeExpected (t : Term)
  /-- A type cannot do what terms can. -/
  | lacks (ty : Ty) (operation : String)
  /-- A name on its own has no record. -/
  | noRecord (name : String)
  /-- Steps are bounded, but not by a number. -/
  | noBound
  | foreign (kind text : String)
  deriving DecidableEq

namespace Mishap

/-- The kind of a fault in a template. -/
def templateKind : Template.Fault → String
  | .noExcerpt _ => "IndexError"
  | .noCharacter => "IndexError"
  | .namedPlace _ => "KeyError"
  | .noAttribute _ => "AttributeError"
  | .notAnIndex => "TypeError"
  | _ => "ValueError"

/-- The kind of a mishap. -/
def kind : Mishap → String
  | template fault => templateKind fault
  | nulInPath => "ValueError"
  | noOutcome => "IndexError"
  | noSuchOutcome => "IndexError"
  | notText _ => "UnicodeDecodeError"
  | noLine => "TypeError"
  | termExpected _ => "TypeError"
  | typeExpected _ => "TypeError"
  | lacks _ _ => "AttributeError"
  | noRecord _ => "TypeError"
  | noBound => "TypeError"
  | foreign kind _ => kind

/-- The text of a mishap. -/
def message : Mishap → String
  | template fault => fault.message
  | nulInPath => "embedded null byte"
  | noOutcome => "pop from empty list"
  | noSuchOutcome => "list index out of range"
  | notText fault => fault.message
  | noLine => "'NoneType' object is not subscriptable"
  | termExpected ty => "not a λ-term: " ++ ty.fullForm
  | typeExpected t => "not a type: " ++ t.fullForm
  | lacks ty operation => "'" ++ ty.constructorName ++ "' object has no attribute '" ++ operation ++ "'"
  | noRecord name => "cannot encode " ++ Text.quoted name
  | noBound => "'>' not supported between instances of 'int' and 'list'"
  | foreign _ text => text

/-- A mishap of a named kind from its arguments: a single text stands for itself, except that the kind for a missing
key quotes it, and all else is in full form. -/
def ofKind (kind : String) (arguments : List Json) : Mishap :=
  foreign kind
    (match arguments with
    | [] => ""
    | [.string text] => if kind = "KeyError" then Text.quoted text else text
    | [v] => v.fullForm
    | vs => "(" ++ ", ".intercalate (Json.fullForms vs) ++ ")")

end Mishap

/-- Why an operation stops. -/
inductive Failure where
  | record (fault : Record.Fault)
  | notJson (text : String) (fault : Json.SyntaxFault)
  /-- A line with the record of a type where a term is due. -/
  | typeGiven (line : String)
  /-- A typing fault, with its span in the line when that is known. -/
  | typing (error : Typing.Error) (span : Option Span)
  | stepLimit (t : Term) (limit : Int)
  | unreadable (path : String)
  | reservedPath
  | custom (notice : Notice)
  | interrupted
  | tooDeep
  /-- The program is left with a status, which may be any value. -/
  | exit (status : Json)
  | outOfFuel
  | mishap (m : Mishap)

namespace Failure

/-- The notice of a failure that is the user's. -/
def notice? : Failure → Option Notice
  | record fault => some fault.notice
  | notJson text fault =>
    some { Notice.quoting text (" is not valid JSON: " ++ fault.problem.message) with
      start := fault.position, stop := fault.position + 1 }
  | typeGiven line => some (Notice.quoting line " encodes a type, not a term").unpointed
  | typing error span => some { error.fault.notice with span }
  | stepLimit t limit =>
    let text := t.layout false
    some (.about text
      [.wording "'", .excerpt text, .wording "' did not reach a value within ", .excerpt limit.repr,
        .wording " steps"])
  | unreadable path => some (Notice.quoting path " could not be opened").unpointed
  | reservedPath => some (.plain "'<in>' is a reserved filename")
  | custom notice => some notice
  | interrupted => some (.plain "keyboard interrupt")
  | tooDeep => some (.plain "term is too deeply nested: maximum recursion depth exceeded")
  | exit _ => none
  | outOfFuel => none
  | mishap _ => none

end Failure

/-- The internal notice of a mishap. -/
def Mishap.notice (m : Mishap) : Notice :=
  let text := m.kind ++ ": " ++ m.message
  { Notice.about text [.wording "unknown error: '", .excerpt text, .wording "'"] with internal := true }

end SimplyTyped
