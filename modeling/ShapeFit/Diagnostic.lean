import ShapeFit.Diagnostic.Code
import ShapeFit.Diagnostic.Span

/-!
# ShapeFit.Diagnostic

Diagnostics: all that is told about one failure.

A failure to read a literal is labelled in its text. A failure to fit has no
text; its place in the signature is told in a note.
-/

namespace ShapeFit

/-- How serious a diagnostic is. -/
inductive Severity where
  | error | warning
deriving DecidableEq

/-- The word for a severity. -/
def Severity.text : Severity → String
  | .error => "error"
  | .warning => "warning"

/-- A remark on a place in the text. The primary labels mark the failure itself. -/
structure Label where
  span : Span
  message : String
  isPrimary : Bool
deriving DecidableEq

/-- A failure explained: what happened, where, what else is known of it, and what
can be done. -/
structure Diagnostic where
  code : Code
  severity : Severity
  message : String
  labels : List Label
  notes : List String
  suggestions : List String
deriving DecidableEq

namespace Diagnostic

/-! ## Building -/

/-- An error with a message and nothing else. -/
def error (code : Code) (message : String) : Diagnostic := ⟨code, .error, message, [], [], []⟩

/-- A warning with a message and nothing else. -/
def warning (code : Code) (message : String) : Diagnostic :=
  ⟨code, .warning, message, [], [], []⟩

/-- Marks a place as the failure, after the labels that are there. -/
def addLabel (d : Diagnostic) (span : Span) (message : String) : Diagnostic :=
  { d with labels := d.labels ++ [⟨span, message, true⟩] }

/-- Marks a place that helps to understand the failure. -/
def addSecondaryLabel (d : Diagnostic) (span : Span) (message : String) : Diagnostic :=
  { d with labels := d.labels ++ [⟨span, message, false⟩] }

/-- Adds a note after the others. -/
def addNote (d : Diagnostic) (note : String) : Diagnostic := { d with notes := d.notes ++ [note] }

/-- Adds a suggestion after the others. -/
def addSuggestion (d : Diagnostic) (suggestion : String) : Diagnostic :=
  { d with suggestions := d.suggestions ++ [suggestion] }

/-! ## Reading off -/

/-- The place of the failure: the span of the first primary label. -/
def primarySpan? (d : Diagnostic) : Option Span := (d.labels.find? (·.isPrimary)).map (·.span)

/-- Whether the diagnostic is an error. -/
def isError (d : Diagnostic) : Bool := d.severity = .error

/-! ## Text -/

/-- The first line: severity, code and message. -/
def header (d : Diagnostic) : String :=
  d.severity.text ++ "[" ++ d.code.id ++ "]: " ++ d.message ++ "\n"

/-- The last lines: the notes, then the suggestions. -/
def trailer (d : Diagnostic) : String :=
  String.join (d.notes.map fun n => "  = note: " ++ n ++ "\n") ++
    String.join (d.suggestions.map fun s => "  = help: " ++ s ++ "\n")

/-- The diagnostic without the text that its labels point into. -/
def text (d : Diagnostic) : String := d.header ++ d.trailer

end Diagnostic

end ShapeFit
