import ExpLang.Text.Source

/-!
# Diagnostics

A diagnostic reports one finding about a source text: a code that classifies it, a severity, a
message, labels that point into the text, and notes. It has two text forms: `Diagnostic.summary`,
which gives spans as offsets, and `Diagnostic.render`, which shows the line of each label with a
row of markers beneath it.
-/

namespace ExpLang

open Text

/-- The kinds of findings. -/
inductive Code where
  /-- A token is missing after a committed beginning. -/
  | expectedToken
  /-- Input is left over after the program. -/
  | trailingInput
  /-- The matcher spent its step budget. -/
  | budgetExhausted
  /-- A literal does not fit its type. -/
  | literalRange
  /-- A value has the wrong type. -/
  | typeMismatch
  /-- A call has the wrong number of arguments. -/
  | argumentCount
  /-- A name is not in scope. -/
  | unknownName
  /-- A class has no such member. -/
  | unknownMember
  /-- A declaration has neither a type nor a value. -/
  | cannotInfer
  /-- A name is declared twice in one scope. -/
  | duplicateName
  /-- An operator does not take these operand types. -/
  | undefinedOperator
  /-- A type name is not known. -/
  | unknownType
  /-- The compiler contradicts itself. -/
  | internal
  deriving DecidableEq, Repr, Inhabited

namespace Code

/-- Every code, in the order of its text. -/
def all : List Code :=
  [expectedToken, trailingInput, budgetExhausted, literalRange, typeMismatch, argumentCount,
   unknownName, unknownMember, cannotInfer, duplicateName, undefinedOperator, unknownType,
   internal]

/-- The text of a code. Its first digit tells the phase: syntax, meaning or the compiler itself. -/
def text : Code → String
  | expectedToken => "E1001"
  | trailingInput => "E1002"
  | budgetExhausted => "E1003"
  | literalRange => "E1004"
  | typeMismatch => "E2001"
  | argumentCount => "E2002"
  | unknownName => "E2003"
  | unknownMember => "E2004"
  | cannotInfer => "E2005"
  | duplicateName => "E2006"
  | undefinedOperator => "E2007"
  | unknownType => "E2008"
  | internal => "E9001"

/-- The code with a given text. -/
def ofText? (s : String) : Option Code := all.find? (·.text == s)

/-- The text of a code leads back to it. -/
theorem ofText?_text (c : Code) : ofText? c.text = some c := by
  cases c <;> rfl

/-- What a code means, in one line. -/
def description : Code → String
  | expectedToken => "expected token"
  | trailingInput => "unexpected trailing input"
  | budgetExhausted => "parser step budget exhausted"
  | literalRange => "literal out of range"
  | typeMismatch => "type mismatch"
  | argumentCount => "wrong number of arguments"
  | unknownName => "unknown identifier"
  | unknownMember => "unknown member"
  | cannotInfer => "cannot infer type"
  | duplicateName => "duplicate declaration"
  | undefinedOperator => "operator not defined for these types"
  | unknownType => "unknown type"
  | internal => "internal compiler error"

/-- Whether the finding is about syntax. -/
def isSyntactic : Code → Bool
  | expectedToken | trailingInput | budgetExhausted | literalRange => true
  | _ => false

end Code

/-- How grave a finding is. -/
inductive Severity where
  | error
  | warning
  | note
  deriving DecidableEq, Repr, Inhabited

/-- The word for a severity. -/
def Severity.text : Severity → String
  | .error => "error"
  | .warning => "warning"
  | .note => "note"

/-- The severity of a word. -/
def Severity.ofText? (s : String) : Option Severity := [error, warning, note].find? (·.text == s)

/-- A message at a place in the text. -/
structure Label where
  /-- The place. -/
  span : Span
  /-- What is to be said about it. -/
  message : String
  /-- Whether this is the place of the finding itself, not of something related. -/
  isPrimary : Bool
  deriving DecidableEq, Repr, Inhabited

/-- One finding about a source text. -/
structure Diagnostic where
  /-- Its kind. -/
  code : Code
  /-- How grave it is. -/
  severity : Severity
  /-- The finding in one sentence. -/
  message : String
  /-- Places in the text that belong to it. -/
  labels : List Label
  /-- Further remarks. -/
  notes : List String
  deriving DecidableEq, Repr, Inhabited

namespace Diagnostic

/-- An error with a message and nothing else. -/
def error (code : Code) (message : String) : Diagnostic := ⟨code, .error, message, [], []⟩

/-- Add the place of the finding. -/
def withLabel (d : Diagnostic) (span : Span) (message : String) : Diagnostic :=
  { d with labels := d.labels ++ [⟨span, message, true⟩] }

/-- Add a related place. -/
def withRelated (d : Diagnostic) (span : Span) (message : String) : Diagnostic :=
  { d with labels := d.labels ++ [⟨span, message, false⟩] }

/-- Add a remark. -/
def withNote (d : Diagnostic) (note : String) : Diagnostic :=
  { d with notes := d.notes ++ [note] }

/-- Whether the finding is an error. -/
def isError (d : Diagnostic) : Bool := d.severity == .error

/-- The first place of the finding itself. -/
def primarySpan (d : Diagnostic) : Option Span := (d.labels.find? (·.isPrimary)).map (·.span)

/-- One line for a label in the summary. -/
def labelSummary (l : Label) : String :=
  "\n  " ++ (if l.isPrimary then "-->" else "   ") ++ " " ++ l.span.text ++ ": " ++ l.message

/-- The text of a diagnostic that needs no source: spans are given as offsets. -/
def summary (d : Diagnostic) : String :=
  d.severity.text ++ " [" ++ d.code.text ++ "]: " ++ d.message
    ++ String.join (d.labels.map labelSummary)
    ++ String.join (d.notes.map ("\n  = note: " ++ ·))

/-- A character repeated. -/
def rowOf (c : Char) (n : Nat) : String := String.ofList (List.replicate n c)

/-- A label shown under the line of its start. A span of no bytes still gets one marker. -/
def renderLabel (source : Source) (l : Label) : String :=
  let (line, col) := source.lineCol l.span.start
  let gutter := toString line
  let pad := rowOf ' ' gutter.length
  let arrow := if l.isPrimary then "-->" else ":::"
  let indent := rowOf ' ' (col - 1)
  let markers := rowOf (if l.isPrimary then '^' else '-') (max l.span.length 1)
  s!"  {arrow} {source.name}:{line}:{col}\n"
    ++ s!" {pad} |\n"
    ++ s!" {gutter} | {source.lineText line}\n"
    ++ s!" {pad} | {indent}{markers} {l.message}\n"

/-- The text of a diagnostic with the lines it points at. -/
def render (d : Diagnostic) (source : Source) : String :=
  d.severity.text ++ "[" ++ d.code.text ++ "]: " ++ d.message ++ "\n"
    ++ String.join (d.labels.map (renderLabel source))
    ++ String.join (d.notes.map fun n => "  = note: " ++ n ++ "\n")

/-- A committed rule could not go on. -/
def expectedToken (pos : Nat) (what : String) : Diagnostic :=
  (error .expectedToken s!"expected {what} at offset {pos}").withLabel (.point pos)
    s!"expected {what}"

/-- A name is not in scope. -/
def unknownName (span : Span) (name : String) : Diagnostic :=
  (error .unknownName s!"cannot find `{name}` in this scope").withLabel span "not found"

/-- A value of type `found` stands where `expected` is wanted; `context` says what the value is. -/
def typeMismatch (span : Span) (expected found context : String) : Diagnostic :=
  ((error .typeMismatch s!"can't assign {found} to {expected}").withLabel span
    s!"{context} has type `{found}`").withNote s!"expected `{expected}`"

/-- A call passes `found` arguments where `least` to `most` are accepted. -/
def argumentCount (span : Span) (name : String) (least most found : Nat) : Diagnostic :=
  let expected := if least = most then toString most else s!"{least} to {most}"
  let message := s!"`{name}` takes {expected} argument(s) but {found} were supplied"
  (error .argumentCount message).withLabel span s!"{found} argument(s) supplied"

/-- A class type has no member of that name. -/
def unknownMember (span : Span) (type name : String) : Diagnostic :=
  (error .unknownMember s!"no member `{name}` on type `{type}`").withLabel span "unknown member"

/-- A declaration has neither a type nor a value. -/
def cannotInfer (span : Span) (name : String) : Diagnostic :=
  ((error .cannotInfer s!"cannot infer the type of `{name}`").withLabel span
    "declared here without a type or a value").withNote "add a type tag or assign a value"

/-- An operator does not take these operand types. -/
def undefinedOperator (span : Span) (op left right : String) : Diagnostic :=
  (error .undefinedOperator s!"operator `{op}` is not defined for `{left}` and `{right}`").withLabel
    span s!"`{left} {op} {right}`"

/-- A type name is not known. -/
def unknownType (span : Span) (name : String) : Diagnostic :=
  (error .unknownType s!"cannot find type `{name}`").withLabel span "not a type"

/-- A scope already declares a name. -/
def duplicateName (span previous : Span) (scope name : String) : Diagnostic :=
  ((error .duplicateName s!"`{scope}` already declares `{name}`").withLabel span
    "redeclared here").withRelated previous "first declared here"

/-- The compiler contradicts itself. -/
def internal (message : String) : Diagnostic := error .internal message

end Diagnostic

end ExpLang
